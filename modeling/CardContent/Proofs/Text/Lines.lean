import CardContent.Proofs.Text.Trim
import CardContent.Text.Lines

/-!
# Joined lines are read back

* `Joined ends pieces text` says that `text` is the pieces, each with one of `ends` behind it. The
  last piece may be without.
* `IsLine line` says that a piece can be told from its line end.

Results:
* `lines_eq`: the three stages of reading lines are one pass over what stands between line feeds.
* `map_stripReturns_splitOn`: cutting a joined text at its line feeds gives the pieces and at most
  an empty one behind the last line end.
* `lines_of_joined_append`: if the last line is not blank, exactly the lines are read, whichever
  blank ones are joined behind them.
* `lines_prefix_append`: text behind a further line feed leaves the lines in front of it.
-/

set_option autoImplicit false

namespace CardContent.Text

/-- `text` is these pieces with ends behind them; the last piece needs none. -/
inductive Joined (ends : List (List Char)) : List (List Char) → List Char → Prop where
  | nil : Joined ends [] []
  | last (piece : List Char) : Joined ends [piece] piece
  | cons (piece : List Char) {behind : List Char} {pieces : List (List Char)} {text : List Char}
      (hend : behind ∈ ends) (hrest : Joined ends pieces text) :
      Joined ends (piece :: pieces) (piece ++ behind ++ text)

/-- The usual line ends. -/
def lineEnds : List (List Char) :=
  [['\n'], ['\r', '\n']]

/-- A line of a text: no line feed is in it and no carriage return at its end. -/
structure IsLine (line : List Char) : Prop where
  noFeed : '\n' ∉ line
  noReturn : line.getLast? ≠ some '\r'

/-- Pieces that all begin alike give a text that does, unless it is empty. -/
theorem Joined.head?_eq {ends pieces : List (List Char)} {text : List Char}
    (h : Joined ends pieces text) {c : Char} (hpieces : ∀ piece ∈ pieces, piece.head? = some c) :
    text.head? = none ∨ text.head? = some c := by
  cases h with
  | nil => exact Or.inl rfl
  | last => exact Or.inr (hpieces _ List.mem_cons_self)
  | cons piece =>
    rw [List.head?_append, List.head?_append, hpieces piece List.mem_cons_self]
    exact Or.inr rfl

/-! ## One line -/

theorem stripReturns_of_isLine {line : List Char} (h : IsLine line) : stripReturns line = line :=
  dropEndWhile_of_last fun _ hc => beq_eq_false_iff_ne.mpr fun hr => h.noReturn (hr ▸ hc)

theorem stripReturns_append_return (piece : List Char) :
    stripReturns (piece ++ ['\r']) = stripReturns piece :=
  dropEndWhile_append_of_all _ fun c hc => by rw [List.mem_singleton.mp hc]; rfl

/-- What is left of a blank piece is blank. -/
theorem blank_stripReturns {piece : List Char} (h : Blank piece) : Blank (stripReturns piece) :=
  fun _ hc => h _ ((List.rdropWhile_prefix _ piece).mem hc)

/-- A piece ends at its line end, whichever it is. -/
theorem map_stripReturns_splitOn_cons {piece behind : List Char} (hfeed : '\n' ∉ piece)
    (hend : behind ∈ lineEnds) (text : List Char) :
    ((piece ++ behind ++ text).splitOn '\n').map stripReturns =
      stripReturns piece :: (text.splitOn '\n').map stripReturns := by
  rcases List.mem_pair.mp hend with rfl | rfl
  · rw [List.append_assoc, List.singleton_append,
      List.splitOn_append_cons_self_of_not_mem hfeed, List.map_cons]
  · have hreturn : '\n' ∉ piece ++ ['\r'] := by
      rw [List.mem_append, List.mem_singleton]
      rintro (hc | hc)
      · exact hfeed hc
      · exact absurd hc (by decide)
    have hsplit : piece ++ ['\r', '\n'] ++ text = (piece ++ ['\r']) ++ '\n' :: text := by simp
    rw [hsplit, List.splitOn_append_cons_self_of_not_mem hreturn, List.map_cons,
      stripReturns_append_return]

/-! ## The stages at once -/

/-- The carriage return that a raw line has lost would have gone anyway. -/
theorem stripReturns_stripReturn (line : List Char) :
    stripReturns (stripReturn line) = stripReturns line := by
  unfold stripReturn
  split
  · rename_i hreturn
    obtain ⟨front, rfl⟩ := List.getLast?_eq_some_iff.mp hreturn
    rw [List.dropLast_concat, stripReturns_append_return]
  · rfl

/-- The raw lines of a text are what stands between its line feeds, carriage returns apart, without
an empty piece at the end. -/
theorem map_stripReturns_rawLines (text : String) :
    ∃ empties, (∀ piece ∈ empties, piece = []) ∧
      (text.toList.splitOn '\n').map stripReturns =
        (rawLines text).map stripReturns ++ empties := by
  have hstrip : ∀ pieces : List (List Char),
      (pieces.map stripReturn).map stripReturns = pieces.map stripReturns := fun pieces => by
    rw [List.map_map]
    exact List.map_congr_left fun piece _ => stripReturns_stripReturn piece
  unfold rawLines
  rcases List.eq_nil_or_concat' (text.toList.splitOn '\n') with hnil | ⟨front, last, hpieces⟩
  · exact ⟨[], nofun, by rw [hnil]; rfl⟩
  · rw [hpieces]
    simp only [List.dropLast_concat, List.getLast?_concat, List.map_append, hstrip]
    cases last with
    | nil => exact ⟨[[]], fun piece hp => List.mem_singleton.mp hp, by simp [stripReturns]; rfl⟩
    | cons c rest => exact ⟨[], nofun, (List.append_nil _).symm⟩

/-- **The three stages are one pass** over what stands between the line feeds. -/
theorem lines_eq (text : String) : lines text =
    (dropEndWhile (fun line => line.all isBlank)
      ((text.toList.splitOn '\n').map stripReturns)).map String.ofList := by
  obtain ⟨empties, hempties, hpieces⟩ := map_stripReturns_rawLines text
  rw [lines, hpieces, dropEndWhile_append_of_all]
  exact fun piece hp => by rw [hempties piece hp]; rfl

/-! ## All lines -/

/-- **A joined text is cut into its pieces** with at most an empty one behind them. -/
theorem map_stripReturns_splitOn {pieces : List (List Char)} {text : List Char}
    (h : Joined lineEnds pieces text) (hfeed : ∀ piece ∈ pieces, '\n' ∉ piece) :
    ∃ empties, (∀ piece ∈ empties, piece = []) ∧
      (text.splitOn '\n').map stripReturns = pieces.map stripReturns ++ empties := by
  induction h with
  | nil => exact ⟨[[]], fun piece hp => List.mem_singleton.mp hp, rfl⟩
  | last piece =>
    refine ⟨[], fun _ hp => absurd hp List.not_mem_nil, ?_⟩
    rw [List.splitOn_eq_singleton (hfeed piece List.mem_cons_self), List.append_nil]
  | cons piece hend _ ih =>
    obtain ⟨hpiece, hrest⟩ := List.forall_mem_cons.mp hfeed
    obtain ⟨empties, hempties, htext⟩ := ih hrest
    refine ⟨empties, hempties, ?_⟩
    rw [map_stripReturns_splitOn_cons hpiece hend, htext, List.map_cons, List.cons_append]

/-- **Joined lines are read back** if the last of them is not blank, without the blank pieces that
are joined behind them. -/
theorem lines_of_joined_append {descriptions blanks : List String} {text : String}
    (h : Joined lineEnds ((descriptions ++ blanks).map String.toList) text.toList)
    (hline : ∀ line ∈ descriptions, IsLine line.toList)
    (hlast : ∀ line ∈ descriptions.getLast?, ¬Blank line.toList)
    (hblank : ∀ piece ∈ blanks, Blank piece.toList ∧ '\n' ∉ piece.toList) :
    lines text = descriptions := by
  have hfeed : ∀ piece ∈ (descriptions ++ blanks).map String.toList, '\n' ∉ piece := by
    rw [List.forall_mem_map, List.forall_mem_append]
    exact ⟨fun line hl => (hline line hl).noFeed, fun piece hp => (hblank piece hp).2⟩
  obtain ⟨empties, hempties, htext⟩ := map_stripReturns_splitOn h hfeed
  have hstrip : (descriptions.map String.toList).map stripReturns =
      descriptions.map String.toList := by
    rw [List.map_map]
    exact List.map_congr_left fun line hl => stripReturns_of_isLine (hline line hl)
  have hkeep : ∀ piece ∈ (descriptions.map String.toList).getLast?,
      piece.all isBlank = false := by
    intro piece hp
    rw [List.getLast?_map, Option.mem_def, Option.map_eq_some_iff] at hp
    obtain ⟨line, hl, rfl⟩ := hp
    rw [← Bool.not_eq_true, List.all_eq_true]
    exact hlast line hl
  have hdrop : ∀ piece ∈ (blanks.map String.toList).map stripReturns ++ empties,
      piece.all isBlank = true := by
    rw [List.forall_mem_append, List.forall_mem_map, List.forall_mem_map]
    refine ⟨fun piece hp => ?_, fun piece hp => ?_⟩
    · exact List.all_eq_true.mpr (blank_stripReturns (hblank piece hp).1)
    · rw [hempties piece hp]
      rfl
  rw [lines_eq, htext, List.map_append, List.map_append, hstrip, List.append_assoc,
    dropEndWhile_append_of_all _ hdrop, dropEndWhile_of_last hkeep, List.map_map]
  simp

theorem lines_of_joined {descriptions : List String} {text : String}
    (h : Joined lineEnds (descriptions.map String.toList) text.toList)
    (hline : ∀ line ∈ descriptions, IsLine line.toList)
    (hlast : ∀ line ∈ descriptions.getLast?, ¬Blank line.toList) :
    lines text = descriptions := by
  have happend : Joined lineEnds ((descriptions ++ []).map String.toList) text.toList := by
    rwa [List.append_nil]
  exact lines_of_joined_append happend hline hlast fun _ hp => absurd hp List.not_mem_nil

/-! ## More lines behind a text -/

/-- What is left of a list is left in front of more: a member may only be dropped as long as
nothing behind it stays. -/
theorem dropEndWhile_prefix_append {α : Type} (p : α → Bool) (xs ys : List α) :
    dropEndWhile p xs <+: dropEndWhile p (xs ++ ys) := by
  simp only [dropEndWhile_eq_rdropWhile]
  -- From the end, where members are dropped.
  induction ys using List.reverseRec with
  | nil => exact (List.append_nil xs).symm ▸ List.prefix_rfl
  | append_singleton ys y ih =>
    rw [← List.append_assoc, List.rdropWhile_concat]
    split
    · exact ih
    · rw [List.append_assoc]
      exact (List.rdropWhile_prefix p xs).trans (List.prefix_append xs (ys ++ [y]))

/-- **Lines stay in front of more lines.** Blank lines at the end of the first text may become lines
by this, but only behind the ones that it has. -/
theorem lines_prefix_append (text more : String) :
    lines text <+: lines (text ++ "\n" ++ more) := by
  have hsplit : (text ++ "\n" ++ more).toList.splitOn '\n' =
      text.toList.splitOn '\n' ++ more.toList.splitOn '\n' := by
    rw [String.toList_append, String.toList_append, List.append_assoc]
    exact List.splitOn_append_cons_self _ _
  rw [lines_eq, lines_eq, hsplit, List.map_append]
  exact (dropEndWhile_prefix_append _ _ _).map String.ofList

/-- Three blank lines that were at the end of a text stand in the middle of the new one. -/
example :
    lines "Gain 1 rune.\n\n \r\n" = ["Gain 1 rune."] ∧
      lines ("Gain 1 rune.\n\n \r\n" ++ "\n" ++ "Draw a card.\r\n") =
        ["Gain 1 rune.", "", " ", "", "Draw a card."] := by
  decide

end CardContent.Text
