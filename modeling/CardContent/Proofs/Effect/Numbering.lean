import CardContent.Effect.Catalog
import CardContent.Proofs.Text.Lines
import CardContent.Proofs.Text.Words
import Mathlib

/-!
# The number of a description is the number of its line

The text of effects is cut at its line feeds, and the blank pieces at its end are dropped. Nothing
is dropped in front of a line or between two, and the place 0 of a catalog is reserved, so the
number of a description is the number of its line in the text, counted from 1. Neither the line
ends that the text was written with nor the blank lines at its end have to do with it.

* `pieces text` are the pieces of a text between its line feeds, without the carriage returns at
  their ends.
* `LastPlace p xs m` says that `m` is the place of the last member of a list that satisfies `p`.
  Places are counted from 1, and 0 means that there is none.
* `Numbered pieces m catalog` says that the numbers of a catalog are the places of pieces up to `m`.

Results:
* `lines_eq_rdropWhile`: the lines are the pieces without the blank ones at the end.
* `lines_of_rejoined`: the lines of a text can be joined again with any line ends.
* `lastPlace_iff`: dropping from the end keeps as many members as the last place says.
* `numbered_take`: the catalog of the first pieces is numbered by them.
* `lines_numbered`: the numbers of a text's descriptions are the places of its pieces.
-/

set_option autoImplicit false

namespace CardContent

namespace Text

/-! ## The pieces of a text -/

/-- What stands between the line feeds of a text, without the carriage returns at its end. -/
def pieces (text : String) : List String :=
  (text.toList.splitOn '\n').map fun piece => String.ofList (piece.rdropWhile (· == '\r'))

theorem not_mem_of_mem_splitOn {a : Char} (cs : List Char) : ∀ piece ∈ cs.splitOn a, a ∉ piece := by
  intro piece hpiece ha
  rw [List.splitOn_eq_splitOnP] at hpiece
  have hne : (a == a) = false := (mem_and_not_of_mem_splitOnP hpiece a ha).2
  exact absurd hne (by simp)

/-- A piece is a line: it has no line feed, and no carriage return is left at its end. -/
theorem isLine_of_mem_pieces {text line : String} (h : line ∈ pieces text) :
    IsLine line.toList := by
  obtain ⟨piece, hpiece, rfl⟩ := List.mem_map.mp h
  rw [String.toList_ofList]
  constructor
  · exact fun hfeed =>
      not_mem_of_mem_splitOn _ piece hpiece ((List.rdropWhile_prefix _ piece).mem hfeed)
  · intro hlast
    have hne := List.ne_nil_of_mem (List.mem_of_getLast? hlast)
    rw [List.getLast?_eq_some_getLast hne] at hlast
    exact List.rdropWhile_last_not _ piece hne (beq_iff_eq.mpr (Option.some.inj hlast))

theorem rdropWhile_map {α β : Type} (p : β → Bool) (f : α → β) (xs : List α) :
    (xs.map f).rdropWhile p = (xs.rdropWhile (p ∘ f)).map f := by
  unfold List.rdropWhile
  rw [← List.map_reverse, List.dropWhile_map, List.map_reverse]

/-- The lines of a text are its pieces without the blank ones at the end. -/
theorem lines_eq_rdropWhile (text : String) :
    lines text = (pieces text).rdropWhile fun line => line.toList.all isBlank := by
  have hpieces : pieces text = ((text.toList.splitOn '\n').map stripReturns).map String.ofList := by
    rw [List.map_map]
    rfl
  rw [hpieces, rdropWhile_map, lines_eq]
  simp [dropEndWhile_eq_rdropWhile, Function.comp_def]

theorem lines_prefix_pieces (text : String) : lines text <+: pieces text := by
  rw [lines_eq_rdropWhile]
  exact List.rdropWhile_prefix _ _

theorem isLine_of_mem_lines {text line : String} (h : line ∈ lines text) : IsLine line.toList :=
  isLine_of_mem_pieces ((lines_prefix_pieces text).mem h)

theorem not_blank_of_getLast?_lines {text line : String} (h : line ∈ (lines text).getLast?) :
    ¬Blank line.toList := by
  rw [lines_eq_rdropWhile] at h
  have hne := List.ne_nil_of_mem (List.mem_of_getLast? h)
  rw [List.getLast?_eq_some_getLast hne, Option.mem_some] at h
  intro hblank
  rw [← h] at hblank
  exact List.rdropWhile_last_not _ _ hne (List.all_eq_true.mpr hblank)

/-- **The lines of a text can be joined again** with any line ends, and with blank pieces behind
them: they are read back. -/
theorem lines_of_rejoined {text text' : String} {blanks : List String}
    (hblank : ∀ piece ∈ blanks, Blank piece.toList ∧ '\n' ∉ piece.toList)
    (h : Joined lineEnds ((lines text ++ blanks).map String.toList) text'.toList) :
    lines text' = lines text :=
  lines_of_joined_append h (fun _ => isLine_of_mem_lines) (fun _ => not_blank_of_getLast?_lines)
    hblank

/-! ## The last place -/

variable {α : Type}

/-- `m` is the place of the last member that satisfies `p`, counted from 1; it is 0 if none does. -/
structure LastPlace (p : α → Prop) (xs : List α) (m : Nat) : Prop where
  /-- The member at the place satisfies `p`. -/
  here : 0 < m → ∃ x, xs[m - 1]? = some x ∧ p x
  /-- No member behind it does. -/
  behind : ∀ k x, m ≤ k → xs[k]? = some x → ¬p x

theorem LastPlace.le {p : α → Prop} {xs : List α} {m m' : Nat} (h : LastPlace p xs m)
    (h' : LastPlace p xs m') : m ≤ m' := by
  by_contra hlt
  obtain ⟨x, hx, hp⟩ := h.here (by omega)
  exact h'.behind (m - 1) x (by omega) hx hp

theorem lastPlace_rdropWhile (p : α → Bool) (xs : List α) :
    LastPlace (fun x => ¬p x = true) xs (xs.rdropWhile p).length := by
  constructor
  · intro hpos
    have hne := List.ne_nil_of_length_pos hpos
    refine ⟨(xs.rdropWhile p).getLast hne, ?_, List.rdropWhile_last_not p xs hne⟩
    rw [List.getLast_eq_getElem hne]
    exact List.prefix_iff_getElem?.mp (List.rdropWhile_prefix p xs) _ (by omega)
  · intro k x hk hx hp
    refine hp (List.mem_rtakeWhile_imp (l := xs) ?_)
    rw [← List.rdropWhile_append_rtakeWhile (p := p) (l := xs),
      List.getElem?_append_right hk] at hx
    exact List.mem_of_getElem? hx

/-- **The last place** is where dropping from the end stops. -/
theorem lastPlace_iff {p : α → Bool} {xs : List α} {m : Nat} :
    LastPlace (fun x => ¬p x = true) xs m ↔ m = (xs.rdropWhile p).length := by
  have hlast := lastPlace_rdropWhile p xs
  constructor
  · exact fun h => Nat.le_antisymm (h.le hlast) (hlast.le h)
  · rintro rfl
    exact hlast

/-- There are as many lines as the last place of a piece that is not blank says. -/
theorem lastPlace_not_blank_iff {text : String} {m : Nat} :
    LastPlace (fun line => ¬Blank line.toList) (pieces text) m ↔ m = (lines text).length := by
  rw [lines_eq_rdropWhile, ← lastPlace_iff]
  simp only [List.all_eq_true]
  rfl

end Text

/-! ## Numbers -/

namespace Catalog

/-- The numbers of a catalog are the places of pieces up to `m`, counted from 1. -/
structure Numbered (pieces : List String) (m : Nat) (catalog : Catalog) : Prop where
  /-- The reserved place comes on top. -/
  size : catalog.size = m + 1
  /-- Every number up to `m` has its piece as description. -/
  found : ∀ index : UInt64, 1 ≤ index.toNat → index.toNat ≤ m →
    ∃ line, pieces[index.toNat - 1]? = some line ∧ catalog.get? index = some line
  /-- No other number has a description. -/
  missing : ∀ index : UInt64, ¬(1 ≤ index.toNat ∧ index.toNat ≤ m) → catalog.get? index = none
  /-- The entries are the numbers with their pieces, in order. -/
  entries : ∀ place, catalog.entries[place]? =
    if place < m then pieces[place]?.map fun line => (place + 1, line) else none

/-- **The catalog of the first pieces** is numbered by them. -/
theorem numbered_take {pieces : List String} {m : Nat} (h : m ≤ pieces.length) :
    Numbered pieces m (.ofList (pieces.take m)) where
  size := by rw [size_ofList, List.length_take_of_le h]
  found := by
    intro index hlow hhigh
    have hzero : index ≠ 0 := by rintro rfl; exact absurd hlow (by decide)
    have hlt : index.toNat - 1 < pieces.length := by omega
    refine ⟨pieces[index.toNat - 1], List.getElem?_eq_getElem hlt, ?_⟩
    rw [get?_ofList, if_neg hzero, List.getElem?_take_of_lt (by omega),
      List.getElem?_eq_getElem hlt]
  missing := by
    intro index hout
    rw [get?_eq_none_iff, size_ofList, List.length_take_of_le h]
    omega
  entries := by
    intro place
    rw [getElem?_entries, getElem?_ofList, List.getElem?_take]
    split <;> rfl

/-- **The number of a description is the number of its line.** There is one last place `m` of a
piece that is not blank. The lines of the text are the pieces up to it; the catalog of the lines is
numbered by them, blank ones in the middle included; and lines that are joined again, with any line
ends and with blank pieces behind them, are read as the same lines. -/
theorem lines_numbered (text : String) :
    ∃ m, (∀ k, Text.LastPlace (fun line => ¬Text.Blank line.toList) (Text.pieces text) k ↔ k = m) ∧
      Text.lines text = (Text.pieces text).take m ∧
      Numbered (Text.pieces text) m (.ofList (Text.lines text)) ∧
      ∀ (blanks : List String) (text' : String),
        (∀ piece ∈ blanks, Text.Blank piece.toList ∧ '\n' ∉ piece.toList) →
        Text.Joined Text.lineEnds ((Text.lines text ++ blanks).map String.toList) text'.toList →
        Text.lines text' = Text.lines text := by
  have hprefix := Text.lines_prefix_pieces text
  have htake := List.prefix_iff_eq_take.mp hprefix
  have hnumbered := numbered_take hprefix.length_le
  rw [← htake] at hnumbered
  exact ⟨(Text.lines text).length, fun _ => Text.lastPlace_not_blank_iff, htake, hnumbered,
    fun _ _ => Text.lines_of_rejoined⟩

/-- A text with several line ends and without one at its end, with blank lines in the middle and
behind. Its lines are joined again with other line ends and another blank piece. -/
theorem lines_numbered_mixed :
    let text := "Gain 1 rune.\r\r\n\r\n\t\nDraw a card.\n  \r\n\r"
    let rejoined := "Gain 1 rune.\n\n\t\r\nDraw a card.\r\n "
    (∀ piece ∈ [" "], Text.Blank piece.toList ∧ '\n' ∉ piece.toList) ∧
      Text.Joined Text.lineEnds ((Text.lines text ++ [" "]).map String.toList) rejoined.toList ∧
      Text.lines rejoined = Text.lines text ∧
      Numbered ["Gain 1 rune.", "", "\t", "Draw a card.", "  ", ""] 4
        (.ofList (Text.lines text)) := by
  intro text rejoined
  have hlines : Text.lines text = ["Gain 1 rune.", "", "\t", "Draw a card."] := by decide
  have hpieces : Text.pieces text = ["Gain 1 rune.", "", "\t", "Draw a card.", "  ", ""] := by
    decide
  have hblank : ∀ piece ∈ [" "], Text.Blank piece.toList ∧ '\n' ∉ piece.toList :=
    List.forall_mem_singleton.mpr ⟨List.forall_mem_singleton.mpr (by decide), by decide⟩
  have hjoined : Text.Joined Text.lineEnds ((Text.lines text ++ [" "]).map String.toList)
      rejoined.toList := by
    rw [hlines]
    have hrejoined : rejoined.toList = "Gain 1 rune.".toList ++ ['\n'] ++ ("".toList ++ ['\n'] ++
        ("\t".toList ++ ['\r', '\n'] ++
          ("Draw a card.".toList ++ ['\r', '\n'] ++ " ".toList))) := by
      cbv
    rw [hrejoined]
    exact .cons _ (by decide) (.cons _ (by decide) (.cons _ (by decide)
      (.cons _ (by decide) (.last _))))
  obtain ⟨m, hm, -, hnumbered, hrejoined⟩ := lines_numbered text
  obtain rfl : 4 = m := (hm 4).mp (Text.lastPlace_not_blank_iff.mpr (hlines ▸ rfl))
  exact ⟨hblank, hjoined, hrejoined [" "] rejoined hblank hjoined, hpieces ▸ hnumbered⟩

end Catalog

end CardContent
