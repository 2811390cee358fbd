import CardContent.Name.Table
import CardContent.Proofs.Deck
import CardContent.Proofs.Roster
import Mathlib.Data.List.ReduceOption

/-!
# A deck list is read line by line, up to the first wrong one

* `Passed line` says that a line is passed over.
* `Says line found?` says what is made of a line, going by its trimmed text: of a line that is not
  passed over, the last colon must stand between a name and a numeral.
* `Presents entries deck` says what can be seen of a deck of these entries: the entries themselves,
  and for each name the count of the last entry whose name has the same key.

Results:
* `ofLine_eq_ok_iff_says`, `ofLine_eq_error_iff`: what is made of a line, and when it is wrong.
* `presents_ofEntries`: a deck presents the entries that it was made of.
* `ofLines_entries_or_first_wrong`: a list of lines gives a deck of all its entries, or fails at the
  first wrong line.
-/

set_option autoImplicit false

namespace CardContent

namespace DeckEntry

variable {line : String} {found? : Option DeckEntry} {e : Error}

/-- A line that is passed over: trimmed, it is empty or begins with `#`. -/
def Passed (line : String) : Prop :=
  Text.trim line.toList = [] ∨ (Text.trim line.toList).head? = some '#'

/-- What is made of a line. -/
inductive Says (line : String) : Option DeckEntry → Prop where
  | nothing (h : Passed line) : Says line none
  | entry {front behind : List Char} {count : UInt32} (hkept : ¬Passed line)
      (hsplit : Text.trim line.toList = front ++ ':' :: behind) (hlast : ':' ∉ behind)
      (hname : ¬Text.Blank front) (hcount : Numeral.Unsigned (Text.trim behind) count.toNat) :
      Says line (some ⟨String.ofList (Text.trim front), count⟩)

theorem passed_iff : ((Text.trim line.toList).isEmpty ||
    (Text.trim line.toList).head? == some '#') = true ↔ Passed line := by
  rw [Bool.or_eq_true, List.isEmpty_iff, beq_iff_eq]
  rfl

/-- A line that is not passed over says an entry exactly if its trimmed text reads as the entry. -/
theorem says_some_iff {entry : DeckEntry} : Says line (some entry) ↔
    ¬Passed line ∧ ofChars? (Text.trim line.toList) = some entry := by
  rw [ofChars?_eq_some_iff_parts]
  constructor
  · intro h
    cases h with
    | entry hkept hsplit hlast hname hcount =>
      exact ⟨hkept, _, _, hsplit, hlast, hname, hcount, rfl⟩
  · rintro ⟨hkept, front, behind, hsplit, hlast, hname, hcount, hentry⟩
    obtain ⟨name, count⟩ := entry
    obtain rfl : name = String.ofList (Text.trim front) := hentry
    exact .entry hkept hsplit hlast hname hcount

/-- **What is made of a line** goes by its trimmed text. -/
theorem ofLine_eq_ok_iff_says : ofLine line = .ok found? ↔ Says line found? := by
  constructor
  · intro h
    unfold ofLine at h
    simp only at h
    split at h
    · rename_i hpassed
      cases h
      exact .nothing (passed_iff.mp hpassed)
    · rename_i hkept
      split at h
      · rename_i entry hread
        cases h
        exact says_some_iff.mpr ⟨mt passed_iff.mpr hkept, hread⟩
      · cases h
  · intro h
    unfold ofLine
    cases found? with
    | none =>
      cases h with
      | nothing hpassed => exact if_pos (passed_iff.mpr hpassed)
    | some entry =>
      obtain ⟨hkept, hread⟩ := says_some_iff.mp h
      simp only [hread]
      exact if_neg (mt passed_iff.mp hkept)

/-- **A line is wrong** if nothing is made of it, and is quoted trimmed then. -/
theorem ofLine_eq_error_iff : ofLine line = .error e ↔
    (¬∃ found?, Says line found?) ∧ e = .count (Text.trimmed line) := by
  simp only [← ofLine_eq_ok_iff_says, ← exists_eq_error_iff]
  constructor
  · exact fun h => ⟨⟨e, h⟩, error_of_ofLine h⟩
  · rintro ⟨⟨e', h⟩, rfl⟩
    rw [h, error_of_ofLine h]

end DeckEntry

namespace Deck

section Presented

variable [Name.Spelling] {lines : List String} {deck : Deck} {e : Error}

/-- What is seen of a deck of these entries. -/
structure Presents (entries : List DeckEntry) (deck : Deck) : Prop where
  /-- All entries are there, in order, whatever their names. -/
  toList : deck.toList = entries
  /-- A name finds the count of the last entry whose name has the same key, or else 0. -/
  copies : ∀ name, deck.copies name =
    ((entries.filter fun entry => Name.key entry.name = Name.key name).getLast?.map
      (·.count)).getD 0
  /-- No position leads outside the entries. -/
  bounded : ∀ (key : String) (i : Nat), deck.positions[key]? = some i → i < deck.entries.size

theorem indexed_ofEntries (entries : List DeckEntry) :
    Roster.Indexed (fun entry => Name.key entry.name) (ofEntries entries) :=
  Roster.indexed_foldl_insert Roster.indexed_empty entries

/-- **A deck presents the entries that it was made of.** -/
theorem presents_ofEntries (entries : List DeckEntry) : Presents entries (ofEntries entries) where
  toList := toList_ofEntries entries
  copies name := by
    rw [copies, (indexed_ofEntries entries).latest, toList_ofEntries]
    cases (entries.filter fun entry => Name.key entry.name = Name.key name).getLast? <;> rfl
  bounded := (indexed_ofEntries entries).bounded

/-- Lines give a deck of what is made of each of them. -/
theorem ofLines_eq_ok_iff : ofLines lines = .ok deck ↔
    ∃ found, List.Forall₂ DeckEntry.Says lines found ∧ deck = ofEntries found.reduceOption := by
  unfold ofLines
  simp only [bind_eq_ok_iff, mapM_eq_ok_iff, DeckEntry.ofLine_eq_ok_iff_says]
  constructor
  · rintro ⟨found, hfound, h⟩
    cases h
    exact ⟨found, hfound, rfl⟩
  · rintro ⟨found, hfound, rfl⟩
    exact ⟨found, hfound, rfl⟩

/-- Lines fail at the first of which nothing is made. -/
theorem ofLines_eq_error_iff_first : ofLines lines = .error e ↔
    ∃ front line back, lines = front ++ line :: back ∧
      (∀ l ∈ front, ∃ found?, DeckEntry.Says l found?) ∧
      (¬∃ found?, DeckEntry.Says line found?) ∧ e = .count (Text.trimmed line) := by
  unfold ofLines
  rw [bind_eq_error_iff, mapM_eq_error_iff]
  simp only [DeckEntry.ofLine_eq_ok_iff_says, DeckEntry.ofLine_eq_error_iff]
  constructor
  · rintro (h | ⟨found, -, h⟩)
    · exact h
    · cases h
  · exact Or.inl

/-- **A deck list gives all its entries, or fails at its first wrong line.** It gives a deck exactly
if something is made of every line; the deck presents the entries of its lines, in order. Otherwise
the error quotes the first line of which nothing is made, trimmed, whatever is behind it. -/
theorem ofLines_entries_or_first_wrong (lines : List String) :
    ((∃ deck, ofLines lines = .ok deck) ↔ ∀ line ∈ lines, ∃ found?, DeckEntry.Says line found?) ∧
      (∀ deck, ofLines lines = .ok deck →
        ∃ found, List.Forall₂ DeckEntry.Says lines found ∧ Presents found.reduceOption deck) ∧
      ∀ e, ofLines lines = .error e ↔
        ∃ front line back, lines = front ++ line :: back ∧
          (∀ l ∈ front, ∃ found?, DeckEntry.Says l found?) ∧
          (¬∃ found?, DeckEntry.Says line found?) ∧ e = .count (Text.trimmed line) := by
  refine ⟨?_, fun deck h => ?_, fun e => ofLines_eq_error_iff_first⟩
  · simp only [← DeckEntry.ofLine_eq_ok_iff_says, ← exists_mapM_eq_ok_iff, ofLines, bind_eq_ok_iff]
    constructor
    · rintro ⟨deck, found, hfound, -⟩
      exact ⟨found, hfound⟩
    · rintro ⟨found, hfound⟩
      exact ⟨ofEntries found.reduceOption, found, hfound, rfl⟩
  · obtain ⟨found, hfound, rfl⟩ := ofLines_eq_ok_iff.mp h
    exact ⟨found, hfound, presents_ofEntries _⟩

end Presented

section Example

open scoped Name.Table

example : ofLines ["# deck", " Avatar: Golem: +03 ", "Militia: -1 ", "Tyrant"] =
    .error (.count "Militia: -1") := by
  rfl

end Example

end Deck

end CardContent
