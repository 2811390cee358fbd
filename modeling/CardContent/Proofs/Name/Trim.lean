import CardContent.Proofs.Card.Row
import CardContent.Proofs.Csv.Bytes
import CardContent.Proofs.Deck
import CardContent.Proofs.Name.Table

/-!
# Names are looked up trimmed or not

Names are trimmed before they are filed, of all white space of Unicode. Their keys have no white
space at the ends either, so that a name as it stands in a file finds what was filed under the
trimmed one. There is one exception: white space in front of a name that is not ASCII makes what is
ASCII in the name be spelled, and its controls are spelled as nothing then.

* `Trimmable name` says that there is no such white space or no such control.

Results:
* `keyWords_trimmed`: the words of a name are those of the trimmed one, behind ASCII or not.
* `exists_record_of_ofRow`, `exists_front_of_ofLine`: what the names of cards and of entries of a
  deck are trimmed from.
* `key_trimmed`: the key of a name by that of the trimmed one, and what names find as they stand in
  a table or in a line.
* `key_changed_by_trimming`: a name with a tab in it and a no-break space in front.
-/

set_option autoImplicit false

namespace CardContent.Name

open CardContent.Text

/-- Whether the white space in front of a name is ASCII. -/
def opensPlain (name : String) : Bool :=
  (name.toList.takeWhile isBlank).all isPlain

/-- The white space in front of a name is ASCII, or no control stands in front of the first
character of the trimmed name that is not. -/
def Trimmable (name : String) : Prop :=
  opensPlain name = true ∨ Calm (trimmed name)

instance (name : String) : Decidable (Trimmable name) :=
  inferInstanceAs (Decidable (opensPlain name = true ∨ Calm (trimmed name)))

/-- `rows` is the table of a text, read from it or from its bytes. -/
def IsTable (text : String) (rows : List Csv.Row) : Prop :=
  rows = Csv.ofText text ∨ Csv.ofBytes text.toUTF8.data.toList = .ok rows

theorem IsTable.eq_ofText {text : String} {rows : List Csv.Row} (h : IsTable text rows) :
    rows = Csv.ofText text := by
  rcases h with h | h
  · exact h
  · rw [Csv.ofBytes_toUTF8] at h
    exact (Except.ok.inj h).symm

/-! ## What names are trimmed from -/

/-- **The name of a card** is trimmed from the first field of a record. -/
theorem exists_record_of_ofRow {text : String} {rows : List Csv.Row} {row : Csv.Row} {kind : Kind}
    {catalog : Catalog} {place : Option Nat} {card : Card} (hrows : IsTable text rows)
    (hrow : row ∈ rows) (hcard : Card.ofRow kind catalog place row = .ok card) :
    ∃ raw fields,
      raw.toList :: fields ∈ Csv.records Csv.charMark (Csv.dropCharMark text.toList) ∧
        card.name = trimmed raw := by
  rw [hrows.eq_ofText] at hrow
  obtain ⟨record, hrecord, rfl⟩ := List.mem_map.mp (List.mem_filter.mp hrow).1
  obtain ⟨-, leading, columns, hleading, hfields, -⟩ := Card.ofRow_eq_ok_iff.mp hcard
  obtain ⟨others, hname⟩ : ∃ others, leading = card.name :: others := by
    cases hleading with
    | acquirable => exact ⟨_, rfl⟩
    | defeatable => exact ⟨_, rfl⟩
  rw [hname, List.cons_append] at hfields
  obtain ⟨field, fields, rfl, hfield, -⟩ := List.map_eq_cons_iff.mp hfields
  refine ⟨String.ofList field, fields, ?_, ?_⟩
  · rwa [String.toList_ofList]
  · rw [← hfield, trimmed, String.toList_ofList]

/-- **The name of an entry of a deck** is trimmed from what stands in front of the last colon of
its line. -/
theorem exists_front_of_ofLine {line : String} {entry : DeckEntry}
    (h : DeckEntry.ofLine line = .ok (some entry)) :
    ∃ raw behind, line.toList = raw.toList ++ ':' :: behind ∧ ':' ∉ behind ∧
      entry.name = trimmed raw := by
  have hline := DeckEntry.ofLine_eq_ok_iff.mp h
  generalize line.toList = text at hline
  cases hline with
  | @entry entry front behind hspells hmark =>
    refine ⟨String.ofList front, behind, ?_, hspells.not_mem_behind, ?_⟩
    · rw [String.toList_ofList]
    · rw [trimmed, String.toList_ofList, trim_of_padded hspells.name hspells.trimmed,
        String.ofList_toList]

/-! ## Keys of trimmed names -/

namespace Spelling

section Regular

variable {spelling : Spelling}

/-- **The words of a name** are those of the trimmed one, behind the white space in front of it. -/
theorem Regular.keyWords_trimmed (h : spelling.Regular) (name : String) :
    spelling.keyWords true name.toList =
      spelling.keyWords (opensPlain name) (trimmed name).toList := by
  have hbefore : Blank (name.toList.takeWhile isBlank) := fun _ hc => List.mem_takeWhile_imp hc
  have hbehind : Blank ((name.toList.dropWhile isBlank).rtakeWhile isBlank) :=
    fun _ hc => List.mem_rtakeWhile_imp hc
  have hpadded := h.keyWords_of_padded hbefore hbehind true (trim name.toList)
  rw [← eq_append_trim_append] at hpadded
  rw [hpadded, trimmed, String.toList_ofList]
  rfl

theorem Regular.key_eq_of_trimmed (h : spelling.Regular) (name : String) :
    spelling.key name =
      if opensPlain name then spelling.key (trimmed name)
      else spelling.key (withoutControls (trimmed name)) := by
  have hwords := h.keyWords_trimmed name
  cases hplain : opensPlain name with
  | true =>
    rw [hplain] at hwords
    exact spelling.key_eq_of_keyWords_eq hwords
  | false =>
    rw [hplain, ← h.keyWords_withoutControls true] at hwords
    exact spelling.key_eq_of_keyWords_eq hwords

theorem Regular.key_trimmed_of_trimmable (h : spelling.Regular) {name : String}
    (hname : Trimmable name) : spelling.key (trimmed name) = spelling.key name := by
  rw [h.key_eq_of_trimmed name]
  cases hplain : opensPlain name with
  | true => rfl
  | false =>
    have hcalm : Calm (trimmed name) := hname.resolve_left (Bool.eq_false_iff.mp hplain)
    exact (h.key_withoutControls hcalm).symm

/-- **Trimming a name does not change its key**, whatever the regular spelling, unless white space
in front of it that is not ASCII deprives it of controls. So the name of a card as it stands in a
table, and that of an entry as it stands in a deck list, find what is filed under the trimmed
name. -/
theorem key_trimmed (spelling : Spelling) (h : spelling.Regular) :
    (∀ name, spelling.key name =
        if opensPlain name then spelling.key (trimmed name)
        else spelling.key (withoutControls (trimmed name))) ∧
      (∀ name, Trimmable name → spelling.key (trimmed name) = spelling.key name) ∧
      (∀ (text : String) (rows : List Csv.Row), IsTable text rows →
        ∀ (kind : Kind) (catalog : Catalog) (place : Option Nat) (card : Card), ∀ row ∈ rows,
          Card.ofRow kind catalog place row = .ok card → ∃ raw fields,
            raw.toList :: fields ∈ Csv.records Csv.charMark (Csv.dropCharMark text.toList) ∧
              card.name = trimmed raw ∧ (Trimmable raw → FindSame raw card.name)) ∧
      ∀ (line : String) (entry : DeckEntry), DeckEntry.ofLine line = .ok (some entry) →
        ∃ raw behind, line.toList = raw.toList ++ ':' :: behind ∧ ':' ∉ behind ∧
          entry.name = trimmed raw ∧ (Trimmable raw → FindSame raw entry.name) := by
  have hfound : ∀ raw, Trimmable raw → FindSame raw (trimmed raw) := fun raw hraw =>
    findSame_of_key_eq (h.key_trimmed_of_trimmable hraw).symm
  refine ⟨h.key_eq_of_trimmed, fun name => h.key_trimmed_of_trimmable, ?_, ?_⟩
  · intro text rows hrows kind catalog place card row hrow hcard
    obtain ⟨raw, fields, hrecord, hname⟩ := exists_record_of_ofRow hrows hrow hcard
    exact ⟨raw, fields, hrecord, hname, hname ▸ hfound raw⟩
  · intro line entry hline
    obtain ⟨raw, behind, hparts, hbehind, hname⟩ := exists_front_of_ofLine hline
    exact ⟨raw, behind, hparts, hbehind, hname, hname ▸ hfound raw⟩

end Regular

section Example

open scoped Table

/-- A name with an ideographic space in front and a tab behind, alone and in a deck list. -/
theorem key_trimmed_seer : standard.Regular ∧ Trimmable "\u3000Séer of the Path\t" ∧
    Name.key "Séer of the Path" = Name.key "\u3000Séer of the Path\t" ∧
    ∃ raw behind, "\u3000Séer of the Path\t: 3".toList = raw.toList ++ ':' :: behind ∧
      (Trimmable raw → FindSame raw "Séer of the Path") := by
  obtain ⟨-, htrimmed, -, hline⟩ := key_trimmed standard regular_standard
  have hname : Trimmable "\u3000Séer of the Path\t" := by decide +kernel
  have hentry : DeckEntry.ofLine "\u3000Séer of the Path\t: 3" =
      .ok (some ⟨"Séer of the Path", 3⟩) := by rfl
  have hkey := htrimmed _ hname
  have hcore : trimmed "\u3000Séer of the Path\t" = "Séer of the Path" := by decide +kernel
  rw [hcore] at hkey
  obtain ⟨raw, behind, hparts, -, -, hfound⟩ := hline _ _ hentry
  exact ⟨regular_standard, hname, hkey, raw, behind, hparts, hfound⟩

/-- **A no-break space in front of a name** takes the tab out of its key. -/
theorem key_changed_by_trimming :
    ¬∀ name : String, Name.key (trimmed name) = Name.key name := by
  intro hall
  have hsame := hall "\u00A0x\ty"
  revert hsame
  decide +kernel

end Example

end Spelling

end CardContent.Name
