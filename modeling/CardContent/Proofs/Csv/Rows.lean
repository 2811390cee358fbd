import CardContent.Proofs.Csv.Bytes
import CardContent.Proofs.Csv.Written

/-!
# A written table gives its rows

`TableText rows text` says that `text` is a table of these rows: a record for each of them, its
fields quoted or as they stand, with any record end behind each record but perhaps the last. A byte
order mark in front would be taken off, so the first field must not begin with one unless it is
quoted.

Results:
* `head?_ne_of_joined`: such a text does not begin with a byte order mark.
* `rows_of_tableText`: its rows are read back trimmed, without those that have no text, from
  characters as from bytes.
-/

set_option autoImplicit false

namespace CardContent.Csv

/-- A text of the table of these rows. -/
def TableText (rows : List Row) (text : String) : Prop :=
  ∃ records, List.Forall₂ RecordText (rows.map fun row => row.map String.toList) records ∧
    Text.Joined recordEnds records text.toList ∧
    ∀ record ∈ records.head?, record.head? ≠ some '\uFEFF'

theorem fieldText_of_all {field : List Char}
    (h : field.all (fun c => decide (c ∉ separators)) = true) : FieldText field field :=
  .bare fun c hc => of_decide_eq_true (List.all_eq_true.mp h c hc)

/-- No record end begins with a byte order mark either. -/
theorem head?_ne_of_joined {records : List (List Char)} {text : List Char}
    (h : Text.Joined recordEnds records text)
    (hfirst : ∀ record ∈ records.head?, record.head? ≠ some '\uFEFF') :
    text.head? ≠ some '\uFEFF' := by
  cases h with
  | nil => nofun
  | last => exact hfirst text rfl
  | @cons record behind records text hend hrest =>
    cases record with
    | nil =>
      rcases mem_recordEnds_iff.mp hend with rfl | rfl | rfl <;>
        exact fun hmark => absurd (Option.some.inj hmark) (by decide)
    | cons c rest => exact hfirst (c :: rest) rfl

/-- **A written table gives its rows**: every field trimmed, in order, and every row as wide as it
was, except that the rows without any text are left out. Nothing goes wrong on the way, whether the
table is read from characters or from bytes. -/
theorem rows_of_tableText {rows : List Row} {text : String} (h : TableText rows text) :
    let table := (rows.map fun row => row.map Text.trimmed).filter fun row =>
      ∃ field ∈ row, field ≠ ""
    ofText text = table ∧ ofBytes text.toUTF8.data.toList = .ok table := by
  intro table
  obtain ⟨records, hrecords, hjoined, hfirst⟩ := h
  have htable : ofText text = table := by
    rw [ofText_of_joined hrecords hjoined (head?_ne_of_joined hjoined hfirst), tableOf_map_toList]
  exact ⟨htable, by rw [ofBytes_toUTF8, htable]⟩

/-- Fields with all that separates fields and records, with a byte order mark and with white space
around them, rows without text, and all record ends. -/
theorem rows_of_tableText_mixed :
    let rows :=
      [["\uFEFF Seer", " of\u3000"], [""], ["a\"b", "", "c,\r\nd "], ["\t", ""], ["", "e"]]
    let text := "\"\uFEFF Seer\", of\u3000\r\n\n\"a\"\"b\",,\"c,\r\nd \"\r\t,\"\"\n,e"
    TableText rows text ∧
      ofBytes text.toUTF8.data.toList =
        .ok [["\uFEFF Seer", "of"], ["a\"b", "", "c,\r\nd"], ["", "e"]] := by
  intro rows text
  have hfirst : RecordText ["\uFEFF Seer".toList, " of\u3000".toList]
      "\"\uFEFF Seer\", of\u3000".toList :=
    .cons (.quoted _) (.last (fieldText_of_all rfl))
  have hempty : RecordText ["".toList] "".toList := .last (fieldText_of_all rfl)
  have hwide : RecordText ["a\"b".toList, "".toList, "c,\r\nd ".toList]
      "\"a\"\"b\",,\"c,\r\nd \"".toList :=
    .cons (.quoted _) (.cons (fieldText_of_all rfl) (.last (.quoted _)))
  have hblank : RecordText ["\t".toList, "".toList] "\t,\"\"".toList :=
    .cons (fieldText_of_all rfl) (.last (.quoted _))
  have hlast : RecordText ["".toList, "e".toList] ",e".toList :=
    .cons (fieldText_of_all rfl) (.last (fieldText_of_all rfl))
  have htext : TableText rows text := by
    have hchars : text.toList = "\"\uFEFF Seer\", of\u3000".toList ++ ['\r', '\n'] ++
        ("".toList ++ ['\n'] ++ ("\"a\"\"b\",,\"c,\r\nd \"".toList ++ ['\r'] ++
          ("\t,\"\"".toList ++ ['\n'] ++ ",e".toList))) := by
      decide +kernel
    refine ⟨_, .cons hfirst (.cons hempty (.cons hwide (.cons hblank (.cons hlast .nil)))), ?_, ?_⟩
    · rw [hchars]
      exact .cons _ (by decide) (.cons _ (by decide) (.cons _ (by decide)
        (.cons _ (by decide) (.last _))))
    · exact fun record hrecord => Option.some.inj hrecord ▸ by decide
  exact ⟨htext, (rows_of_tableText htext).2.trans (by rfl)⟩

end CardContent.Csv
