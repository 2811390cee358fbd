import CardContent.Proofs.Effect.Call
import CardContent.Proofs.Text.Words
import Mathlib.Data.List.Forall2

/-!
# The arguments of a compound have one cut

The arguments of a compound are scanned once, from left to right. A `)` with no `(` in front of it
is forgiven, and behind a `(` that is never closed no semicolon counts any more. So every text is
cut, and in one way only.

* `Scan` is what is carried along: the depth, and offsets in bytes for the end of what was scanned,
  for the beginning of the last piece and for both ends of the pieces in front of it.
* `Finds scan text closed last` says that these are the offsets of pieces, `last` being the one that
  the scan is in, and that they are a cut of what was scanned.

Results:
* `Finds.step_cut`, `Finds.step_keep`: one character more leaves a scan at the offsets of a cut.
* `exists_finds_run`: so every text is scanned to a cut.
* `isCut_iff`: a text has one cut, which is the one that is made.
* `splitChildren_only_cut`: the parts of a compound are the trimmed pieces of the only cut.
-/

set_option autoImplicit false

namespace CardContent

/-! ## Cuts of longer texts -/

section Longer

variable {text last : List Char} {closed : List (List Char)} {c : Char}

/-- A character that does not cut goes to the last piece. -/
theorem IsCut.append_char (h : IsCut text (closed ++ [last]))
    (hkeep : ¬(c = ';' ∧ depthBehind 0 last = 0)) :
    IsCut (text ++ [c]) (closed ++ [last ++ [c]]) where
  nonempty := by simp
  joined := by rw [Text.intercalate_append_last, h.joined]
  uncut := by
    obtain ⟨hclosed, hlast⟩ := List.forall_mem_append.mp h.uncut
    refine List.forall_mem_append.mpr ⟨hclosed, List.forall_mem_singleton.mpr ?_⟩
    exact (uncut_append 0 last [c]).mpr ⟨hlast last List.mem_cons_self, hkeep, trivial⟩
  ended := by
    have hended := h.ended
    rwa [List.dropLast_concat] at hended ⊢

/-- A semicolon at depth 0 ends the last piece and begins another one. -/
theorem IsCut.append_semicolon (h : IsCut text (closed ++ [last]))
    (hend : depthBehind 0 last = 0) : IsCut (text ++ [';']) (closed ++ [last] ++ [[]]) where
  nonempty := by simp
  joined := by
    rw [Text.intercalate_append _ (List.cons_ne_nil _ _) h.nonempty, h.joined,
      List.intercalate_singleton, List.append_nil]
  uncut := List.forall_mem_append.mpr ⟨h.uncut, List.forall_mem_singleton.mpr trivial⟩
  ended := by
    have hended := h.ended
    rw [List.dropLast_concat] at hended ⊢
    exact List.forall_mem_append.mpr ⟨hended, List.forall_mem_singleton.mpr hend⟩

end Longer

/-! ## Scanning -/

/-- What is carried along in a scan. -/
structure Scan where
  /-- How deep the last piece is. -/
  depth : Nat
  /-- How many bytes were scanned. -/
  offset : Nat
  /-- Where the last piece begins. -/
  start : Nat
  /-- Where the pieces in front of it begin and end. -/
  closed : List (Nat × Nat)

namespace Scan

/-- A scan that has begun. -/
def begun : Scan := ⟨0, 0, 0, []⟩

/-- One character more. -/
def step (scan : Scan) (c : Char) : Scan :=
  if c = ';' ∧ scan.depth = 0 then
    ⟨0, scan.offset + c.utf8Size, scan.offset + 1, scan.closed ++ [(scan.start, scan.offset)]⟩
  else ⟨depthAfter scan.depth c, scan.offset + c.utf8Size, scan.start, scan.closed⟩

/-- The scan of a text. -/
def run (text : List Char) : Scan :=
  text.foldl step begun

/-- Where all pieces begin and end, if the text is at its end. -/
def places (scan : Scan) : List (Nat × Nat) :=
  scan.closed ++ [(scan.start, scan.offset)]

/-- What a scan has found in a text. -/
structure Finds (scan : Scan) (text : List Char) (closed : List (List Char)) (last : List Char) :
    Prop where
  /-- The pieces are a cut of the text. -/
  cut : IsCut text (closed ++ [last])
  /-- The depth is that behind the last piece. -/
  depth : depthBehind 0 last = scan.depth
  offset : byteLength text = scan.offset
  start : ∃ front, text = front ++ last ∧ byteLength front = scan.start
  closed : List.Forall₂ (fun place => Slice text place.1 place.2) scan.closed closed

variable {scan : Scan} {text last : List Char} {closed : List (List Char)}

theorem finds_begun : Finds begun [] [] [] where
  cut := ⟨List.cons_ne_nil _ _, rfl, List.forall_mem_singleton.mpr trivial,
    fun _ h => absurd h List.not_mem_nil⟩
  depth := rfl
  offset := rfl
  start := ⟨[], rfl, rfl⟩
  closed := .nil

/-- The last piece stands at the end of what was scanned. -/
theorem Finds.slice_last (h : Finds scan text closed last) :
    Slice text scan.start scan.offset last := by
  obtain ⟨front, rfl, hfront⟩ := h.start
  exact ⟨front, [], by simp, hfront, h.offset⟩

theorem Finds.slice_places (h : Finds scan text closed last) :
    List.Forall₂ (fun place => Slice text place.1 place.2) scan.places (closed ++ [last]) :=
  List.rel_append h.closed (.cons h.slice_last .nil)

/-- **A semicolon at depth 0** leaves a scan at the offsets of a cut: the last piece is closed. -/
theorem Finds.step_cut (h : Finds scan text closed last) (hdepth : scan.depth = 0) :
    Finds (scan.step ';') (text ++ [';']) (closed ++ [last]) [] := by
  rw [step, if_pos ⟨rfl, hdepth⟩]
  have hoffset : byteLength (text ++ [';']) = scan.offset + 1 := by
    rw [byteLength_append, h.offset]
    rfl
  exact
    { cut := h.cut.append_semicolon (h.depth.trans hdepth)
      depth := rfl
      offset := hoffset
      start := ⟨text ++ [';'], by simp, hoffset⟩
      closed := h.slice_places.imp fun place _ hslice => hslice.append [';'] }

/-- **Any other character** leaves a scan at the offsets of a cut: it goes to the last piece. -/
theorem Finds.step_keep {c : Char} (h : Finds scan text closed last)
    (hkeep : ¬(c = ';' ∧ scan.depth = 0)) :
    Finds (scan.step c) (text ++ [c]) closed (last ++ [c]) := by
  rw [step, if_neg hkeep]
  obtain ⟨front, htext, hfront⟩ := h.start
  exact
    { cut := h.cut.append_char (h.depth ▸ hkeep)
      depth := by
        rw [depthBehind_append, h.depth]
        rfl
      offset := by
        rw [byteLength_append, h.offset, byteLength_cons]
        rfl
      start := ⟨front, by rw [htext, List.append_assoc], hfront⟩
      closed := h.closed.imp fun place _ hslice => hslice.append [c] }

/-- **Every text is scanned to a cut**, whether or not its parentheses match. -/
theorem exists_finds_run (text : List Char) :
    ∃ closed last, Finds (run text) text closed last := by
  induction text using List.reverseRec with
  | nil => exact ⟨[], [], finds_begun⟩
  | append_singleton text c ih =>
    obtain ⟨closed, last, h⟩ := ih
    have hrun : run (text ++ [c]) = (run text).step c := List.foldl_concat ..
    rw [hrun]
    by_cases hcut : c = ';' ∧ (run text).depth = 0
    · obtain ⟨rfl, hdepth⟩ := hcut
      exact ⟨_, _, h.step_cut hdepth⟩
    · exact ⟨_, _, h.step_keep hcut⟩

end Scan

/-! ## The only cut -/

/-- **A text has one cut**, which is the one that is made. -/
theorem isCut_iff {text : List Char} {pieces : List (List Char)} :
    IsCut text pieces ↔ pieces = cutAt 0 text := by
  constructor
  · exact fun h => (cutAt_of_isCut h).symm
  · rintro rfl
    obtain ⟨closed, last, h⟩ := Scan.exists_finds_run text
    rw [cutAt_of_isCut h.cut]
    exact h.cut

/-- The pieces stand at the offsets that the scan comes to. -/
theorem slice_places_run (text : List Char) : List.Forall₂
    (fun place => Slice text place.1 place.2) (Scan.run text).places (cutAt 0 text) := by
  obtain ⟨closed, last, h⟩ := Scan.exists_finds_run text
  rw [cutAt_of_isCut h.cut]
  exact h.slice_places

namespace Effect

/-- **The parts of a compound are the trimmed pieces of the only cut** of its arguments, whatever
these are. There is exactly one cut; its pieces are what stands between the offsets that the scan
comes to, and trimming takes white space from their ends and nothing else. There is always a part.
Pieces whose parentheses match, with semicolons inside them only, are the cut of what they make up
with semicolons between them. -/
theorem splitChildren_only_cut (args : List Char) :
    (∃ pieces, (∀ others, IsCut args others ↔ others = pieces) ∧
        splitChildren args = pieces.map Text.trim ∧
        List.Forall₂ Text.Padded (splitChildren args) pieces ∧
        List.Forall₂ (fun place => Slice args place.1 place.2) (Scan.run args).places pieces) ∧
      splitChildren args ≠ [] ∧
      ∀ pieces, pieces ≠ [] → (∀ piece ∈ pieces, Matched piece) →
        splitChildren ([';'].intercalate pieces) = pieces.map Text.trim := by
  refine ⟨⟨cutAt 0 args, fun others => isCut_iff, rfl, ?_, slice_places_run args⟩, ?_,
    fun pieces hne hmatched => ?_⟩
  · refine List.forall₂_map_left_iff.mpr (List.forall₂_same.mpr fun piece _ => ?_)
    exact Text.padded_trim piece
  · exact mt List.map_eq_nil_iff.mp (cutAt_ne_nil 0 args)
  · rw [splitChildren, cutAt_intercalate hne fun piece hpiece =>
      level_of_matched (hmatched piece hpiece)]

/-- Arguments with a `)` too many, a `(` that is never closed and a character of two bytes. -/
def looseArgs : List Char := " é(1;2);)3 ; (4;5".toList

/-- Pieces whose parentheses match, though one of them is no token. -/
def matchedPieces : List (List Char) := [" OR(1();2())?".toList, "(;) é ".toList, []]

theorem splitChildren_only_cut_loose :
    let pieces := [" é(1;2)".toList, ")3 ".toList, " (4;5".toList]
    IsCut looseArgs pieces ∧ (∀ others, IsCut looseArgs others → others = pieces) ∧
      splitChildren looseArgs = ["é(1;2)".toList, ")3".toList, "(4;5".toList] ∧
      List.Forall₂ (fun place => Slice looseArgs place.1 place.2) [(0, 8), (9, 12), (13, 18)]
        pieces ∧
      (∀ piece ∈ matchedPieces, Matched piece) ∧
      splitChildren " OR(1();2())?;(;) é ;".toList =
        ["OR(1();2())?".toList, "(;) é".toList, []] := by
  intro pieces
  have hcut : IsCut looseArgs pieces := by decide
  have hmatched : ∀ piece ∈ matchedPieces, Matched piece := by decide
  obtain ⟨⟨found, honly, hsplit, -, hplaces⟩, -, hpieces⟩ := splitChildren_only_cut looseArgs
  obtain rfl : pieces = found := (honly pieces).mp hcut
  refine ⟨hcut, fun others => (honly others).mp, ?_, ?_, hmatched, ?_⟩
  · rw [hsplit]
    decide
  · have hrun : (Scan.run looseArgs).places = [(0, 8), (9, 12), (13, 18)] := by decide
    rwa [hrun] at hplaces
  · have hjoined : " OR(1();2())?;(;) é ;".toList = [';'].intercalate matchedPieces := by decide
    rw [hjoined, hpieces matchedPieces (List.cons_ne_nil _ _) hmatched]
    decide

end Effect

end CardContent
