import CardContent.Content.Basic
import CardContent.Name.Table
import CardContent.Proofs.Deck.Reading
import CardContent.Proofs.Text.Lines
import CardContent.Proofs.Text.Utf8

/-!
# A written deck list is read back

An entry is written as its name, a colon, a space and the digits of its count. The lines of the
entries may stand among blank lines and remarks (`Listed`), and have any line ends. What is asked of
a name (`Writable`) leaves it any colons, digits and carriage returns that it may have inside.

Reading goes over the text twice, once to cut it into lines and once to trim these. The first time
carriage returns and blank lines are dropped at the end of a line and of the text, which the second
time would have been passed over anyway: so the deck is that of the lines as they were written.

Results:
* `ofLine_congr`: a line is read by its trimmed text.
* `ofLines_append_blank`: blank lines at the end make no difference.
* `ofLines_of_joined`: nor do line ends.
* `ofLines_of_listed`: the lines of a list give its entries.
* `read_of_listed`: a written list is read back, from memory and from a folder.
-/

set_option autoImplicit false

namespace CardContent

theorem Text.trim_stripReturns (piece : List Char) :
    Text.trim (Text.stripReturns piece) = Text.trim piece := by
  have hblank : Text.Blank (piece.rtakeWhile (· == '\r')) := by
    intro c hc
    rw [beq_iff_eq.mp (List.mem_rtakeWhile_imp (p := (· == '\r')) hc)]
    rfl
  conv => rhs; rw [← List.rdropWhile_append_rtakeWhile (p := (· == '\r')) (l := piece)]
  rw [Text.trim_append_blank hblank]
  rfl

namespace DeckEntry

/-- An entry as it is written. -/
def written (entry : DeckEntry) : List Char :=
  entry.name.toList ++ ':' :: ' ' :: Numeral.ofNat entry.count.toNat

/-- An entry whose name is no blank line, no remark and no two lines. -/
structure Writable (entry : DeckEntry) : Prop where
  named : entry.name ≠ ""
  trimmed : Text.Trimmed entry.name.toList
  noMark : entry.name.toList.head? ≠ some '#'
  noFeed : '\n' ∉ entry.name.toList

/-- A line is read by its trimmed text. -/
theorem ofLine_congr {line line' : String}
    (h : Text.trim line.toList = Text.trim line'.toList) : ofLine line = ofLine line' := by
  unfold ofLine
  rw [h]

theorem ofLine_of_blank {line : String} (h : Text.Blank line.toList) : ofLine line = .ok none :=
  ofLine_eq_ok_iff.mpr (.blank h)

/-- **A written entry is a line of a deck list** with this entry. -/
theorem isLine_written {entry : DeckEntry} (h : Writable entry) :
    IsLine entry.written (some entry) := by
  have hdigits := Numeral.digits_ofNat entry.count.toNat
  have hspace : Text.Blank [' '] := List.forall_mem_singleton.mpr (by decide)
  refine .entry ⟨Text.padded_refl _, h.trimmed, ?_, _, ?_, .plain hdigits⟩ h.noMark
  · exact fun hnil => h.named (String.toList_eq_nil_iff.mp hnil)
  · exact (Text.padded_refl _).append_left hspace

theorem noFeed_written {entry : DeckEntry} (h : Writable entry) : '\n' ∉ entry.written := by
  have hdigits := (Numeral.digits_ofNat entry.count.toNat).2.1
  unfold written
  rw [List.mem_append, List.mem_cons, List.mem_cons]
  rintro (hname | hcolon | hspace | hcount)
  · exact h.noFeed hname
  · exact absurd hcolon (by decide)
  · exact absurd hspace (by decide)
  · exact absurd (hdigits '\n' hcount) (by decide)

end DeckEntry

namespace Deck

/-- Lines that may stand in a deck list of these entries: one for each entry, in order, and among
them any number of blank lines and remarks. -/
inductive Listed : List DeckEntry → List (List Char) → Prop where
  | nil : Listed [] []
  | passed {line : List Char} {entries : List DeckEntry} {lines : List (List Char)}
      (hline : DeckEntry.IsLine line none) (hfeed : '\n' ∉ line) (h : Listed entries lines) :
      Listed entries (line :: lines)
  | entry (entry : DeckEntry) {entries : List DeckEntry} {lines : List (List Char)}
      (h : Listed entries lines) : Listed (entry :: entries) (entry.written :: lines)

/-! ## Line ends and blank lines -/

section Reading

variable [Name.Spelling]

/-- **Blank lines at the end** of a deck list make no difference. -/
theorem ofLines_append_blank {blanks : List String} (h : ∀ line ∈ blanks, Text.Blank line.toList)
    (lines : List String) : ofLines (lines ++ blanks) = ofLines lines := by
  have hblanks : blanks.mapM DeckEntry.ofLine = .ok (blanks.map fun _ => none) :=
    mapM_eq_ok_iff.mpr (List.forall₂_map_right_iff.mpr (List.forall₂_same.mpr fun line hline =>
      DeckEntry.ofLine_of_blank (h line hline)))
  unfold ofLines
  rw [List.mapM_append, hblanks]
  cases lines.mapM DeckEntry.ofLine with
  | error e => rfl
  | ok found =>
    show Except.ok (ofEntries ((found ++ blanks.map fun _ => none).filterMap id)) =
      Except.ok (ofEntries (found.filterMap id))
    rw [List.filterMap_append, List.filterMap_map]
    simp

/-- Carriage returns at the end of a line make no difference. -/
theorem ofLines_map_stripReturns (lines : List (List Char)) :
    ofLines ((lines.map Text.stripReturns).map String.ofList) =
      ofLines (lines.map String.ofList) := by
  have hline : DeckEntry.ofLine ∘ String.ofList ∘ Text.stripReturns =
      DeckEntry.ofLine ∘ String.ofList := by
    funext line
    refine DeckEntry.ofLine_congr ?_
    show Text.trim (String.ofList (Text.stripReturns line)).toList =
      Text.trim (String.ofList line).toList
    rw [String.toList_ofList, String.toList_ofList, Text.trim_stripReturns]
  unfold ofLines
  rw [List.map_map, List.mapM_map, List.mapM_map, hline]

/-- **Line ends** make no difference to a deck list, nor does the number of blank lines at its
end. -/
theorem ofLines_of_joined {lines : List (List Char)} {text : String}
    (h : Text.Joined Text.lineEnds lines text.toList) (hfeed : ∀ line ∈ lines, '\n' ∉ line) :
    ofLines (Text.lines text) = ofLines (lines.map String.ofList) := by
  obtain ⟨empties, hempties, htext⟩ := Text.map_stripReturns_splitOn h hfeed
  have hblanks : ∀ line ∈ ((lines.map Text.stripReturns ++ empties).rtakeWhile
      fun line => line.all Text.isBlank).map String.ofList, Text.Blank line.toList := by
    refine List.forall_mem_map.mpr fun line hline => ?_
    rw [String.toList_ofList]
    exact List.all_eq_true.mp
      (List.mem_rtakeWhile_imp (p := fun line : List Char => line.all Text.isBlank) hline)
  have hempty : ∀ line ∈ empties.map String.ofList, Text.Blank line.toList := by
    refine List.forall_mem_map.mpr fun line hline => ?_
    rw [hempties line hline]
    exact Text.blank_nil
  calc ofLines (Text.lines text)
      = ofLines (((lines.map Text.stripReturns ++ empties).rdropWhile
          fun line => line.all Text.isBlank).map String.ofList) := by
        rw [Text.lines_eq, htext, Text.dropEndWhile_eq_rdropWhile]
    _ = ofLines ((lines.map Text.stripReturns ++ empties).map String.ofList) := by
        rw [← ofLines_append_blank hblanks, ← List.map_append, List.rdropWhile_append_rtakeWhile]
    _ = ofLines ((lines.map Text.stripReturns).map String.ofList) := by
        rw [List.map_append, ofLines_append_blank hempty]
    _ = ofLines (lines.map String.ofList) := ofLines_map_stripReturns lines

end Reading

/-! ## Entries -/

/-- The lines of a list give its entries, and nothing else. -/
theorem Listed.exists_found {entries : List DeckEntry} {lines : List (List Char)}
    (h : Listed entries lines) (hnames : ∀ entry ∈ entries, entry.Writable) :
    ∃ found, List.Forall₂ DeckEntry.IsLine lines found ∧ found.reduceOption = entries := by
  induction h with
  | nil => exact ⟨[], .nil, rfl⟩
  | passed hline _ _ ih =>
    obtain ⟨found, hfound, hentries⟩ := ih hnames
    exact ⟨none :: found, .cons hline hfound, hentries⟩
  | entry entry _ ih =>
    obtain ⟨hname, hrest⟩ := List.forall_mem_cons.mp hnames
    obtain ⟨found, hfound, hentries⟩ := ih hrest
    refine ⟨some entry :: found, .cons (DeckEntry.isLine_written hname) hfound, ?_⟩
    rw [List.reduceOption_cons_of_some, hentries]

theorem Listed.noFeed {entries : List DeckEntry} {lines : List (List Char)}
    (h : Listed entries lines) (hnames : ∀ entry ∈ entries, entry.Writable) :
    ∀ line ∈ lines, '\n' ∉ line := by
  induction h with
  | nil => exact fun line hline => absurd hline List.not_mem_nil
  | passed _ hfeed _ ih => exact List.forall_mem_cons.mpr ⟨hfeed, ih hnames⟩
  | entry entry _ ih =>
    obtain ⟨hname, hrest⟩ := List.forall_mem_cons.mp hnames
    exact List.forall_mem_cons.mpr ⟨DeckEntry.noFeed_written hname, ih hrest⟩

/-- **The lines of a list give its entries.** -/
theorem ofLines_of_listed [Name.Spelling] {entries : List DeckEntry} {lines : List (List Char)}
    (h : Listed entries lines) (hnames : ∀ entry ∈ entries, entry.Writable) :
    ofLines (lines.map String.ofList) = .ok (ofEntries entries) := by
  obtain ⟨found, hfound, rfl⟩ := h.exists_found hnames
  unfold ofLines
  refine bind_eq_ok_iff.mpr ⟨found, mapM_eq_ok_iff.mpr ?_, rfl⟩
  rw [List.forall₂_map_left_iff]
  refine hfound.imp fun line found? hline => ?_
  rw [DeckEntry.ofLine_eq_ok_iff, String.toList_ofList]
  exact hline

/-- **A written deck list is read back.** If the names of the entries can be written, and the text
is the lines of a list of these entries with any line ends, then reading gives the deck of exactly
these entries, in this order, whether the text is kept in memory or is a file in a folder. -/
theorem read_of_listed [Name.Spelling] {entries : List DeckEntry} {lines : List (List Char)}
    {text : String}
    (hnames : ∀ entry ∈ entries, entry.Writable) (hlisted : Listed entries lines)
    (hjoined : Text.Joined Text.lineEnds lines text.toList) :
    ∃ deck, Presents entries deck ∧
      (∀ textOf, textOf Resource.counts.name = some text →
        (Deck.read (.memory textOf)).outcome = .ok deck) ∧
      ∀ root fileAt, fileAt (pathIn root Resource.counts.name) = .ok text.toUTF8 →
        (Deck.read (.folder root fileAt)).outcome = .ok deck := by
  have hlines : ofLines (Text.lines text) = .ok (ofEntries entries) := by
    rw [ofLines_of_joined hjoined (hlisted.noFeed hnames), ofLines_of_listed hlisted hnames]
  refine ⟨ofEntries entries, presents_ofEntries entries, fun textOf htext => ?_,
    fun root fileAt hbytes => ?_⟩
  · rw [outcome_read, Source.outcome_lines_memory htext]
    exact bind_eq_ok_iff.mpr ⟨_, rfl, hlines⟩
  · rw [outcome_read, Source.outcome_lines_folder hbytes (Utf8.text?_toUTF8 text)]
    exact bind_eq_ok_iff.mpr ⟨_, rfl, hlines⟩

section Example

open scoped Name.Table

/-- One name looks like an entry itself, the other has a carriage return in it. -/
theorem read_of_listed_golem :
    let entries : List DeckEntry := [⟨"Avatar: Golem: 3", 0⟩, ⟨"7#\rb", 4294967295⟩]
    let lines := ["  # deck: 3", "Avatar: Golem: 3: 0", "\t", "#", "7#\rb: 4294967295"]
    let text := "  # deck: 3\r\nAvatar: Golem: 3: 0\r\n\t\n#\n7#\rb: 4294967295\r\n"
    (∀ entry ∈ entries, entry.Writable) ∧ Listed entries (lines.map String.toList) ∧
      Text.Joined Text.lineEnds (lines.map String.toList) text.toList ∧
      ∃ deck, (Deck.read (.memory fun _ => some text)).outcome = .ok deck ∧
        deck.toList = entries := by
  intro entries lines text
  have hnames : ∀ entry ∈ entries, entry.Writable :=
    List.forall_mem_cons.mpr ⟨⟨by decide, by decide, by decide, by decide⟩,
      List.forall_mem_singleton.mpr ⟨by decide, by decide, by decide, by decide⟩⟩
  have hlisted : Listed entries (lines.map String.toList) := by
    have hblank : Text.Blank [' ', ' '] := by decide
    exact .passed (.remark hblank) (by decide) (.entry _ (.passed (.blank (by decide)) (by decide)
      (.passed (.remark Text.blank_nil) (by decide) (.entry _ .nil))))
  have hjoined : Text.Joined Text.lineEnds (lines.map String.toList) text.toList := by
    have htext : text.toList = "  # deck: 3".toList ++ ['\r', '\n'] ++
        ("Avatar: Golem: 3: 0".toList ++ ['\r', '\n'] ++ ("\t".toList ++ ['\n'] ++
          ("#".toList ++ ['\n'] ++ ("7#\rb: 4294967295".toList ++ ['\r', '\n'] ++ [])))) := by
      decide +kernel
    rw [htext]
    exact .cons _ (by decide) (.cons _ (by decide) (.cons _ (by decide)
      (.cons _ (by decide) (.cons _ (by decide) .nil))))
  obtain ⟨deck, hdeck, hmemory, -⟩ := read_of_listed hnames hlisted hjoined
  exact ⟨hnames, hlisted, hjoined, deck, hmemory (fun _ => some text) rfl, hdeck.toList⟩

end Example

end Deck

end CardContent
