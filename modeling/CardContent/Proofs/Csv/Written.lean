import CardContent.Csv.Table
import CardContent.Proofs.Text.Lines
import Mathlib.Data.List.Forall2

/-!
# Written tables are read back

A field is written between quotes with the quotes in it doubled, or as it stands if it has no
comma, quote or line end (`FieldText`). Fields are joined by commas to a record (`RecordText`), and
records by any of the three line ends to a table.

The scan of what is written goes from one known state to the next: `run_doubled` and `run_plain`
run inside a field, `run_fieldText` over a field, `run_recordText` over a record. Line ends may be
two characters, of which the second stands in front of a record and is passed over.

Results:
* `tableOf_finish_run`: scanning joined records adds them to those that were complete before. A
  record that is written as an empty line is lost, but has no text and is no row.
* `ofText_of_joined`: the table of joined records is the table of these records.
* `ofText_of_quoted`: rows of trimmed fields, all of them quoted, are read back as they are.
-/

set_option autoImplicit false

namespace CardContent.Csv

/-! ## Writing -/

/-- A text with its quotes doubled. -/
def doubled (field : List Char) : List Char :=
  field.flatMap fun c => if c = '"' then ['"', '"'] else [c]

/-- A field between quotes. -/
def quoted (field : List Char) : List Char :=
  '"' :: (doubled field ++ ['"'])

/-- A record of quoted fields. -/
def quotedRecord (fields : List (List Char)) : List Char :=
  [','].intercalate (fields.map quoted)

/-- The characters that a field must not have if it is written as it stands. -/
def separators : List Char :=
  [',', '"', '\n', '\r']

/-- The ways to write a field. -/
inductive FieldText : List Char → List Char → Prop where
  | quoted (field : List Char) : FieldText field (quoted field)
  | bare {field : List Char} (h : ∀ c ∈ field, c ∉ separators) : FieldText field field

/-- The ways to write a record, which has at least one field. -/
inductive RecordText : List (List Char) → List Char → Prop where
  | last {field text : List Char} (h : FieldText field text) : RecordText [field] text
  | cons {field text : List Char} {fields : List (List Char)} {rest : List Char}
      (h : FieldText field text) (hrest : RecordText fields rest) :
      RecordText (field :: fields) (text ++ ',' :: rest)

/-- The ways to end a record. -/
def recordEnds : List (List Char) :=
  [['\n'], ['\r'], ['\r', '\n']]

theorem mem_recordEnds_iff {behind : List Char} :
    behind ∈ recordEnds ↔ behind = ['\n'] ∨ behind = ['\r'] ∨ behind = ['\r', '\n'] := by
  simp [recordEnds]

/-! ## Marks -/

theorem charMark_eq_quote_iff {c : Char} : charMark c = .quote ↔ c = '"' := by
  rw [← Char.toNat_inj]
  unfold charMark Mark.ofCode
  constructor
  · intro h
    split at h
    · cases h
    · split at h
      · rename_i hc; exact hc
      · split at h <;> cases h
  · intro h
    rw [h]
    rfl

/-- A character that is no separator has no mark. -/
theorem charMark_of_not_separator {c : Char} (h : c ∉ separators) : charMark c = .plain := by
  have hne : ∀ x ∈ separators, c.toNat ≠ x.toNat := fun x hx heq => h (Char.toNat_inj.mp heq ▸ hx)
  have hcomma : c.toNat ≠ 0x2C := hne ',' (by decide)
  have hquote : c.toNat ≠ 0x22 := hne '"' (by decide)
  have hend : ¬(c.toNat = 0x0A ∨ c.toNat = 0x0D) :=
    not_or.mpr ⟨hne '\n' (by decide), hne '\r' (by decide)⟩
  rw [charMark, Mark.ofCode, if_neg hcomma, if_neg hquote, if_neg hend]

/-! ## Steps -/

namespace Scan

variable {s : Scan Char}

theorem step_comma (h : s.mode ≠ .quoted) (x : Char) : s.step .comma x = s.endField := by
  obtain ⟨mode, field, fields, records⟩ := s
  cases mode with
  | quoted => exact absurd rfl h
  | _ => rfl

theorem step_plain (h : s.mode ≠ .quoted) (x : Char) : s.step .plain x = s.push .bare x := by
  obtain ⟨mode, field, fields, records⟩ := s
  cases mode with
  | quoted => exact absurd rfl h
  | _ => rfl

theorem step_lineEnd (h : s.mode ≠ .quoted) (hstart : s.mode ≠ .recordStart) (x : Char) :
    s.step .lineEnd x = s.endRecord := by
  obtain ⟨mode, field, fields, records⟩ := s
  cases mode with
  | quoted => exact absurd rfl h
  | recordStart => exact absurd rfl hstart
  | _ => rfl

theorem step_quote (h : s.mode = .recordStart ∨ s.mode = .fieldStart) (x : Char) :
    s.step .quote x = { s with mode := .quoted } := by
  obtain ⟨mode, field, fields, records⟩ := s
  rcases h with h | h
  · obtain rfl : mode = .recordStart := h
    rfl
  · obtain rfl : mode = .fieldStart := h
    rfl

theorem step_of_quoted (h : s.mode = .quoted) {m : Mark} (hm : m ≠ .quote) (x : Char) :
    s.step m x = s.push .quoted x := by
  obtain ⟨mode, field, fields, records⟩ := s
  obtain rfl : mode = .quoted := h
  cases m with
  | quote => exact absurd rfl hm
  | _ => rfl

/-! ## Fields -/

/-- Between quotes a text stands for itself if its quotes are doubled. -/
theorem run_doubled (field : List Char) : ∀ {s : Scan Char}, s.mode = .quoted →
    s.run charMark (doubled field) = { s with field := field.reverse ++ s.field } := by
  unfold doubled
  induction field with
  | nil => intro s _; rfl
  | cons c rest ih =>
    intro s hs
    obtain ⟨mode, field, fields, records⟩ := s
    obtain rfl : mode = .quoted := hs
    rw [List.flatMap_cons, run_append]
    by_cases hc : c = '"'
    · -- the first of the two quotes might have been the closing one
      subst hc
      show Scan.run charMark (Scan.push ⟨.quoteSeen, field, fields, records⟩ .quoted '"') _ = _
      rw [ih rfl]
      simp [push]
    · have hmark : charMark c ≠ .quote := fun hm => hc (charMark_eq_quote_iff.mp hm)
      rw [if_neg hc, run_cons, run_nil, step_of_quoted rfl hmark, ih rfl]
      simp [push]

/-- A text without marks stands for itself outside quotes. -/
theorem run_plain : ∀ {text : List Char} {s : Scan Char}, (∀ c ∈ text, charMark c = .plain) →
    s.mode ≠ .quoted → text ≠ [] →
      s.run charMark text = { s with mode := .bare, field := text.reverse ++ s.field }
  | [], _, _, _, hne => absurd rfl hne
  | [c], s, hplain, hs, _ => by
    rw [run_cons, hplain c List.mem_cons_self, step_plain hs]
    rfl
  | c :: d :: rest, s, hplain, hs, _ => by
    obtain ⟨hc, hrest⟩ := List.forall_mem_cons.mp hplain
    have hbare : (s.push .bare c).mode ≠ .quoted := Mode.noConfusion
    rw [run_cons, hc, step_plain hs, run_plain hrest hbare (List.cons_ne_nil d rest)]
    simp [push]

/-- **A written field is scanned** up to its end. Only an empty one leaves no trace. -/
theorem run_fieldText {field text : List Char} (h : FieldText field text)
    (hs : s.mode = .recordStart ∨ s.mode = .fieldStart) (hfield : s.field = []) :
    ∃ mode, mode ≠ .quoted ∧
      (mode = .recordStart → s.mode = .recordStart ∧ field = [] ∧ text = []) ∧
      s.run charMark text = { s with mode, field := field.reverse } := by
  cases h with
  | quoted =>
    refine ⟨.quoteSeen, Mode.noConfusion, Mode.noConfusion, ?_⟩
    have hopen : s.step (charMark '"') '"' = { s with mode := .quoted } := step_quote hs '"'
    unfold quoted
    rw [run_cons, hopen, run_append, run_doubled field rfl, hfield, List.append_nil]
    rfl
  | bare hbare =>
    have hplain : ∀ c ∈ field, charMark c = .plain := fun c hc =>
      charMark_of_not_separator (hbare c hc)
    have hmode : s.mode ≠ .quoted := by
      intro hq
      rw [hq] at hs
      rcases hs with h | h <;> cases h
    cases field with
    | nil =>
      refine ⟨s.mode, hmode, fun h => ⟨h, rfl, rfl⟩, ?_⟩
      rw [run_nil, List.reverse_nil, ← hfield]
    | cons c rest =>
      refine ⟨.bare, Mode.noConfusion, Mode.noConfusion, ?_⟩
      rw [run_plain hplain hmode (List.cons_ne_nil c rest), hfield, List.append_nil]

/-! ## Records -/

/-- The state in front of a record, with these records complete, the last first. -/
def between (records : List (List (List Char))) : Scan Char where
  mode := .recordStart
  field := []
  fields := []
  records := records

/-- **A written record is scanned** up to its end: to complete it is to have one record more. Only
a record that is written as nothing leaves no trace. -/
theorem run_recordText {fields : List (List Char)} {text : List Char}
    (h : RecordText fields text) : ∀ {s : Scan Char},
    s.mode = .recordStart ∨ s.mode = .fieldStart → s.field = [] →
      (s.run charMark text).mode ≠ .quoted ∧
        ((s.run charMark text).mode = .recordStart →
          s.mode = .recordStart ∧ fields = [[]] ∧ text = []) ∧
        (s.run charMark text).endRecord = between ((s.fields.reverse ++ fields) :: s.records) := by
  induction h with
  | last hfield =>
    intro s hs hempty
    obtain ⟨mode, hquoted, hstart, hrun⟩ := run_fieldText hfield hs hempty
    rw [hrun]
    refine ⟨hquoted, fun hm => ?_, by simp [endRecord, between]⟩
    obtain ⟨hmode, rfl, rfl⟩ := hstart hm
    exact ⟨hmode, rfl, rfl⟩
  | @cons field text fields rest hfield _ ih =>
    intro s hs hempty
    obtain ⟨mode, hquoted, -, hrun⟩ := run_fieldText hfield hs hempty
    have hcomma : (s.run charMark text).step (charMark ',') ',' =
        (s.run charMark text).endField := by
      refine step_comma ?_ ','
      rw [hrun]
      exact hquoted
    rw [run_append, run_cons, hcomma]
    obtain ⟨hrest, hstart, hend⟩ := ih (s := (s.run charMark text).endField) (Or.inr rfl) rfl
    refine ⟨hrest, fun hm => absurd (hstart hm).1 Mode.noConfusion, ?_⟩
    rw [hend, hrun]
    simp [endField]

/-- **A record end completes a record** that has left a trace. -/
theorem run_recordEnd {s : Scan Char} {records : List (List (List Char))} {behind : List Char}
    (hend : behind ∈ recordEnds) (hquoted : s.mode ≠ .quoted) (hstart : s.mode ≠ .recordStart)
    (hrecords : s.endRecord = between records) : s.run charMark behind = between records := by
  have hstep : ∀ x, s.step .lineEnd x = between records := fun x =>
    (step_lineEnd hquoted hstart x).trans hrecords
  rcases mem_recordEnds_iff.mp hend with rfl | rfl | rfl
  · exact hstep '\n'
  · exact hstep '\r'
  · -- the line feed stands in front of a record already
    rw [run_cons, show charMark '\r' = .lineEnd from rfl, hstep]
    rfl

/-- In front of a record, a record end is passed over. -/
theorem run_recordEnd_between (records : List (List (List Char))) {behind : List Char}
    (hend : behind ∈ recordEnds) :
    (between records).run charMark behind = between records := by
  rcases mem_recordEnds_iff.mp hend with rfl | rfl | rfl <;> rfl

/-! ## Tables -/

theorem finish_between (records : List (List (List Char))) :
    (between records).finish = records.reverse := rfl

theorem finish_of_begun {s : Scan Char} {records : List (List (List Char))}
    (hstart : s.mode ≠ .recordStart) (hrecords : s.endRecord = between records) :
    s.finish = records.reverse := by
  unfold finish
  rw [if_neg hstart, hrecords]
  rfl

end Scan

theorem tableOf_append (front behind : List (List (List Char))) :
    tableOf (front ++ behind) = tableOf front ++ tableOf behind := by
  unfold tableOf
  rw [List.map_append, List.filter_append]

theorem tableOf_empty_record : tableOf [[[]]] = [] := rfl

/-- The table of rows of strings: each field is trimmed, and each row left out that has no text. -/
theorem tableOf_map_toList (rows : List Row) :
    tableOf (rows.map fun row => row.map String.toList) =
      (rows.map fun row => row.map Text.trimmed).filter fun row => ∃ field ∈ row, field ≠ "" := by
  have hrow : ((fun record => record.map fun field => String.ofList (Text.trim field)) ∘
      fun row : Row => row.map String.toList) = fun row => row.map Text.trimmed := by
    funext row
    exact List.map_map
  unfold tableOf
  rw [List.map_map, hrow]
  refine List.filter_congr fun row _ => ?_
  rw [Bool.eq_iff_iff]
  simp [String.isEmpty_iff]

/-- The last record of a text. -/
theorem tableOf_finish_recordText {row : List (List Char)} {text : List Char}
    (h : RecordText row text) (before : List (List (List Char))) :
    tableOf ((Scan.between before).run charMark text).finish =
      tableOf (before.reverse ++ [row]) := by
  obtain ⟨-, hstart, hend⟩ := Scan.run_recordText h (s := Scan.between before) (Or.inl rfl) rfl
  by_cases hm : ((Scan.between before).run charMark text).mode = .recordStart
  · obtain ⟨-, rfl, rfl⟩ := hstart hm
    rw [Scan.run_nil, Scan.finish_between, tableOf_append, tableOf_empty_record, List.append_nil]
  · rw [Scan.finish_of_begun hm hend, List.reverse_cons]
    rfl

/-- A record with its end. -/
theorem run_recordText_end {row : List (List Char)} {text behind : List Char}
    (h : RecordText row text) (hbehind : behind ∈ recordEnds)
    (before : List (List (List Char))) :
    ∃ after, (Scan.between before).run charMark (text ++ behind) = Scan.between after ∧
      tableOf after.reverse = tableOf (before.reverse ++ [row]) := by
  obtain ⟨hquoted, hstart, hend⟩ :=
    Scan.run_recordText h (s := Scan.between before) (Or.inl rfl) rfl
  rw [Scan.run_append]
  by_cases hm : ((Scan.between before).run charMark text).mode = .recordStart
  · obtain ⟨-, rfl, rfl⟩ := hstart hm
    refine ⟨before, Scan.run_recordEnd_between before hbehind, ?_⟩
    rw [tableOf_append, tableOf_empty_record, List.append_nil]
  · refine ⟨row :: before, Scan.run_recordEnd hbehind hquoted hm hend, ?_⟩
    rw [List.reverse_cons]

/-- **Scanning joined records** adds them to those that were complete before, rows without text
aside. -/
theorem tableOf_finish_run {rows : List (List (List Char))} {texts : List (List Char)}
    {text : List Char} (hrows : List.Forall₂ RecordText rows texts)
    (h : Text.Joined recordEnds texts text) : ∀ before : List (List (List Char)),
    tableOf ((Scan.between before).run charMark text).finish =
      tableOf (before.reverse ++ rows) := by
  induction h generalizing rows with
  | nil =>
    intro before
    cases hrows
    rw [Scan.run_nil, Scan.finish_between, List.append_nil]
  | last piece =>
    intro before
    cases hrows with
    | cons hrow hnil =>
      cases hnil
      exact tableOf_finish_recordText hrow before
  | cons piece hbehind _ ih =>
    intro before
    cases hrows with
    | @cons row _ rest _ hrow hrest =>
      obtain ⟨after, hrun, hafter⟩ := run_recordText_end hrow hbehind before
      rw [Scan.run_append, hrun, ih hrest, tableOf_append, hafter, ← tableOf_append,
        List.append_assoc, List.singleton_append]

/-- A text without a byte order mark is scanned from its first character on. -/
theorem dropCharMark_of_head {text : List Char} (h : text.head? ≠ some '\uFEFF') :
    dropCharMark text = text := by
  unfold dropCharMark
  split
  · exact absurd rfl h
  · rfl

/-- **Joined records are read back** up to trimming and rows without text. -/
theorem ofText_of_joined {rows : List (List (List Char))} {texts : List (List Char)}
    {text : String} (hrows : List.Forall₂ RecordText rows texts)
    (h : Text.Joined recordEnds texts text.toList) (hhead : text.toList.head? ≠ some '\uFEFF') :
    ofText text = tableOf rows := by
  unfold ofText
  rw [dropCharMark_of_head hhead]
  exact tableOf_finish_run hrows h []

/-! ## Quoted rows -/

theorem recordText_quoted : ∀ {fields : List (List Char)}, fields ≠ [] →
    RecordText fields (quotedRecord fields)
  | [], hne => absurd rfl hne
  | [field], _ => by
    rw [quotedRecord, List.map_singleton, List.intercalate_singleton]
    exact .last (.quoted field)
  | field :: f :: fs, _ => by
    have hrest := recordText_quoted (List.cons_ne_nil f fs)
    unfold quotedRecord at hrest ⊢
    rw [List.map_cons, List.map_cons, List.intercalate_cons_cons, List.append_assoc,
      List.singleton_append]
    exact .cons (.quoted field) hrest

/-- A row that a table keeps as it is: its fields are trimmed, and one of them has text. -/
structure Kept (row : Row) : Prop where
  trimmed : ∀ field ∈ row, Text.Trimmed field.toList
  text : ∃ field ∈ row, field ≠ ""

theorem Kept.ne_nil {row : Row} (h : Kept row) : row ≠ [] := by
  obtain ⟨field, hfield, -⟩ := h.text
  exact List.ne_nil_of_mem hfield

theorem tableOf_kept {rows : List Row} (h : ∀ row ∈ rows, Kept row) :
    tableOf (rows.map fun row => row.map String.toList) = rows := by
  have hfields : ∀ row ∈ rows, row.map Text.trimmed = row := by
    intro row hrow
    have hfield : ∀ field ∈ row, Text.trimmed field = field := fun field hfield => by
      rw [Text.trimmed, Text.trim_of_trimmed ((h row hrow).trimmed field hfield),
        String.ofList_toList]
    rw [List.map_congr_left hfield, List.map_id']
  rw [tableOf_map_toList, List.map_congr_left hfields, List.map_id', List.filter_eq_self]
  exact fun row hrow => decide_eq_true (h row hrow).text

theorem head?_quotedRecord {fields : List (List Char)} (hne : fields ≠ []) :
    (quotedRecord fields).head? = some '"' := by
  cases fields with
  | nil => exact absurd rfl hne
  | cons field rest =>
    cases rest with
    | nil => rw [quotedRecord, List.map_singleton, List.intercalate_singleton]; rfl
    | cons f fs =>
      rw [quotedRecord, List.map_cons, List.map_cons, List.intercalate_cons_cons]
      rfl

/-- **Quoted rows are read back** as they are if the table keeps them. -/
theorem ofText_of_quoted {rows : List Row} {text : String} (hkept : ∀ row ∈ rows, Kept row)
    (h : Text.Joined recordEnds (rows.map fun row => quotedRecord (row.map String.toList))
      text.toList) : ofText text = rows := by
  have hne : ∀ row ∈ rows, row.map String.toList ≠ [] := fun row hrow hnil =>
    (hkept row hrow).ne_nil (List.map_eq_nil_iff.mp hnil)
  have hrecords : List.Forall₂ RecordText (rows.map fun row => row.map String.toList)
      (rows.map fun row => quotedRecord (row.map String.toList)) := by
    rw [List.forall₂_map_left_iff, List.forall₂_map_right_iff, List.forall₂_same]
    exact fun row hrow => recordText_quoted (hne row hrow)
  have hhead : text.toList.head? ≠ some '\uFEFF' := by
    have hquote := h.head?_eq (List.forall_mem_map.mpr fun row hrow =>
      head?_quotedRecord (hne row hrow))
    rcases hquote with hquote | hquote <;> (rw [hquote]; decide)
  rw [ofText_of_joined hrecords h hhead, tableOf_kept hkept]

end CardContent.Csv
