import CardContent.Csv.Table
import CardContent.Proofs.Text.Trim
import CardContent.Proofs.Text.Utf8

/-!
# The table of a text is that of its bytes

A table may be read from a text or from the bytes of one. The scan of the bytes goes along with the
scan of the text: behind each character it stands where the other one stands, with the bytes of the
characters that the other one has taken (`Scan.encode`). This is so because all marks are of ASCII,
and no byte of another character is. For the same reason white space can be taken off the bytes of a
field without breaking a character.

Results:
* `run_encode`: the two scans go along with each other.
* `records_encode`: the records of the bytes are the bytes of the records.
* `trimBytes_encode`: trimming bytes trims characters.
* `ofBytes_toUTF8`: the table of a text is that of its bytes, and nothing goes wrong on the way.
-/

set_option autoImplicit false

namespace CardContent.Csv

open Utf8 (encode)

/-! ## Marks -/

theorem toNat_ofNat_ascii {c : Char} (h : c.toNat < 0x80) :
    (UInt8.ofNat c.toNat).toNat = c.toNat := by
  rw [UInt8.toNat_ofNat']
  omega

theorem byteMark_ascii {c : Char} (h : c.toNat < 0x80) :
    byteMark (UInt8.ofNat c.toNat) = charMark c := by
  rw [byteMark, charMark, toNat_ofNat_ascii h]

theorem Mark.ofCode_plain {code : Nat} (h : 0x80 ≤ code) : Mark.ofCode code = .plain := by
  unfold Mark.ofCode
  rw [if_neg (by omega), if_neg (by omega), if_neg (by omega)]

/-! ## Scans -/

/-- Where a scan stands behind a symbol without a mark. -/
def Mode.behindPlain : Mode → Mode
  | .quoted => .quoted
  | _ => .bare

namespace Scan

theorem step_plain_eq_push {σ : Type} (s : Scan σ) (x : σ) :
    s.step .plain x = s.push s.mode.behindPlain x := by
  obtain ⟨mode, field, fields, records⟩ := s
  cases mode <;> rfl

/-- Bytes without marks go into the field. -/
theorem run_plain_bytes : ∀ {bytes : List UInt8} (s : Scan UInt8), bytes ≠ [] →
    (∀ b ∈ bytes, byteMark b = .plain) →
      s.run byteMark bytes =
        { s with mode := s.mode.behindPlain, field := bytes.reverse ++ s.field }
  | [], _, hne, _ => absurd rfl hne
  | [b], s, _, hplain => by
    rw [run_cons, hplain b List.mem_cons_self, step_plain_eq_push]
    rfl
  | b :: b' :: rest, s, _, hplain => by
    obtain ⟨hb, hrest⟩ := List.forall_mem_cons.mp hplain
    have hmode : s.mode.behindPlain.behindPlain = s.mode.behindPlain := by cases s.mode <;> rfl
    rw [run_cons, hb, step_plain_eq_push, run_plain_bytes _ (List.cons_ne_nil b' rest) hrest]
    simp [push, hmode]

/-- The scan that has taken the bytes of the characters that this one has taken. -/
def encode (s : Scan Char) : Scan UInt8 where
  mode := s.mode
  field := (Utf8.encode s.field.reverse).reverse
  fields := s.fields.map Utf8.encode
  records := s.records.map fun record => record.map Utf8.encode

theorem encode_push (s : Scan Char) (mode : Mode) (c : Char) :
    (s.push mode c).encode =
      { s.encode with mode, field := (String.utf8EncodeChar c).reverse ++ s.encode.field } := by
  simp [encode, push, Utf8.encode_append, Utf8.encode_singleton]

theorem encode_endField (s : Scan Char) : s.endField.encode = s.encode.endField := by
  simp [encode, endField]

theorem encode_endRecord (s : Scan Char) : s.endRecord.encode = s.encode.endRecord := by
  simp [encode, endRecord]

/-- A character of one byte is taken like its byte. -/
theorem encode_step {c : Char} {b : UInt8} (h : String.utf8EncodeChar c = [b]) (s : Scan Char)
    (m : Mark) : (s.step m c).encode = s.encode.step m b := by
  have hpush : ∀ mode, (s.push mode c).encode = s.encode.push mode b := fun mode => by
    rw [encode_push, h]
    rfl
  have hmode : s.encode.mode = s.mode := rfl
  unfold step
  rw [hmode]
  split
  · rfl
  · rfl
  · rfl
  · rfl
  · exact hpush .quoted
  · exact hpush .quoted
  · exact encode_endField s
  · exact encode_endRecord s
  · exact hpush .bare

/-- **The scans go along with each other** over one character. -/
theorem run_encodeChar (s : Scan Char) (c : Char) :
    s.encode.run byteMark (String.utf8EncodeChar c) = (s.step (charMark c) c).encode := by
  by_cases hascii : c.toNat < 0x80
  · have hbyte := Utf8.encodeChar_ascii hascii
    rw [encode_step hbyte, hbyte, run_cons, run_nil, byteMark_ascii hascii]
  · have hplain : ∀ b ∈ String.utf8EncodeChar c, byteMark b = .plain := fun b hb =>
      Mark.ofCode_plain (Utf8.le_of_mem_encodeChar (Nat.le_of_not_lt hascii) hb)
    have hchar : charMark c = .plain := Mark.ofCode_plain (Nat.le_of_not_lt hascii)
    rw [run_plain_bytes _ String.utf8EncodeChar_ne_nil hplain, hchar, step_plain_eq_push,
      encode_push]
    rfl

/-- **The scans go along with each other.** -/
theorem run_encode : ∀ (cs : List Char) (s : Scan Char),
    s.encode.run byteMark (Utf8.encode cs) = (s.run charMark cs).encode
  | [], _ => rfl
  | c :: cs, s => by
    rw [Utf8.encode_cons, run_append, run_encodeChar, run_encode cs, run_cons]

theorem finish_encode (s : Scan Char) :
    s.encode.finish = s.finish.map fun record => record.map Utf8.encode := by
  have hmode : s.encode.mode = s.mode := rfl
  unfold finish
  rw [hmode]
  split
  · exact List.map_reverse.symm
  · rw [← encode_endRecord]
    exact List.map_reverse.symm

end Scan

/-- **The records of the bytes are the bytes of the records.** -/
theorem records_encode (cs : List Char) :
    records byteMark (encode cs) =
      (records charMark cs).map fun record => record.map encode := by
  unfold records
  rw [← Scan.finish_encode, ← Scan.run_encode]
  rfl

/-! ## The byte order mark -/

/-- A text whose bytes begin with the byte order mark begins with it. -/
theorem head?_of_encode {cs : List Char} {rest : List UInt8}
    (h : encode cs = 0xEF :: 0xBB :: 0xBF :: rest) : cs.head? = some '\uFEFF' := by
  have hbytes : ['\uFEFF'].utf8Encode ++ rest.toByteArray = cs.utf8Encode := by
    rw [List.utf8Encode, List.utf8Encode, ← List.toByteArray_append]
    exact congrArg List.toByteArray h.symm
  obtain ⟨more, rfl⟩ := List.isPrefix_of_utf8Encode_append_eq_utf8Encode _ hbytes
  rfl

/-- The byte order mark is three bytes. -/
theorem drop_orderMarkLength_encode (cs : List Char) :
    (encode cs).drop (orderMarkLength (encode cs)) = encode (dropCharMark cs) := by
  unfold dropCharMark
  split
  · rfl
  · rename_i hmark
    have hzero : orderMarkLength (encode cs) = 0 := by
      unfold orderMarkLength
      split
      · rename_i rest hbytes
        obtain ⟨more, hmore⟩ := List.head?_eq_some_iff.mp (head?_of_encode hbytes)
        exact absurd hmore (hmark more)
      · rfl
    rw [hzero, List.drop_zero]

/-! ## White space -/

/-- Whether a character is white space of ASCII at the ends of a field. -/
def isBlankAscii (c : Char) : Bool :=
  c == ' ' || c == '\t' || c == '\n' || c == '\x0c' || c == '\r'

/-- A field without the white space of ASCII at its two ends. -/
def trimAscii (field : List Char) : List Char :=
  Text.dropEndWhile isBlankAscii (field.dropWhile isBlankAscii)

theorem isBlankAscii_cases {c : Char} (h : isBlankAscii c = true) :
    c.toNat < 0x80 ∧ Text.isBlank c = true := by
  simp only [isBlankAscii, Bool.or_eq_true, beq_iff_eq] at h
  rcases h with (((rfl | rfl) | rfl) | rfl) | rfl <;> decide

theorem isBlankByte_ascii {c : Char} (h : c.toNat < 0x80) :
    isBlankByte (UInt8.ofNat c.toNat) = isBlankAscii c := by
  have hall : ∀ n < 0x80, isBlankByte (UInt8.ofNat n) = isBlankAscii (Char.ofNat n) := by decide
  rw [hall c.toNat h, Char.ofNat_toNat]

theorem isBlankByte_of_le {b : UInt8} (h : 0x80 ≤ b.toNat) : isBlankByte b = false := by
  have hne : ∀ x : UInt8, x.toNat < 0x80 → (b == x) = false := by
    intro x hx
    refine beq_eq_false_iff_ne.mpr fun hb => ?_
    subst hb
    omega
  unfold isBlankByte
  rw [hne 0x20 (by decide), hne 0x09 (by decide), hne 0x0A (by decide), hne 0x0C (by decide),
    hne 0x0D (by decide)]
  rfl

/-- A character that is white space is one byte that is. -/
theorem encodeChar_of_blank {c : Char} (h : isBlankAscii c = true) :
    ∃ b, String.utf8EncodeChar c = [b] ∧ isBlankByte b = true := by
  have hascii := (isBlankAscii_cases h).1
  exact ⟨_, Utf8.encodeChar_ascii hascii, (isBlankByte_ascii hascii).trans h⟩

/-- No byte of another character is white space. -/
theorem isBlankByte_of_mem {c : Char} (h : isBlankAscii c = false) {b : UInt8}
    (hb : b ∈ String.utf8EncodeChar c) : isBlankByte b = false := by
  by_cases hascii : c.toNat < 0x80
  · rw [Utf8.encodeChar_ascii hascii, List.mem_singleton] at hb
    rw [hb, isBlankByte_ascii hascii, h]
  · exact isBlankByte_of_le (Utf8.le_of_mem_encodeChar (Nat.le_of_not_lt hascii) hb)

theorem dropWhile_encode : ∀ cs : List Char,
    (encode cs).dropWhile isBlankByte = encode (cs.dropWhile isBlankAscii)
  | [] => rfl
  | c :: cs => by
    rw [Utf8.encode_cons]
    cases hc : isBlankAscii c with
    | true =>
      obtain ⟨b, hbyte, hb⟩ := encodeChar_of_blank hc
      rw [hbyte, List.singleton_append, List.dropWhile_cons_of_pos hb,
        List.dropWhile_cons_of_pos hc, dropWhile_encode cs]
    | false =>
      obtain ⟨b, bytes, hbytes⟩ :=
        List.exists_cons_of_ne_nil (String.utf8EncodeChar_ne_nil (c := c))
      have hb := isBlankByte_of_mem hc (hbytes ▸ List.mem_cons_self)
      rw [List.dropWhile_cons_of_neg (by simp [hc]), Utf8.encode_cons, hbytes, List.cons_append,
        List.dropWhile_cons_of_neg (by simp [hb])]

theorem dropEndWhile_encode (cs : List Char) :
    Text.dropEndWhile isBlankByte (encode cs) = encode (Text.dropEndWhile isBlankAscii cs) := by
  -- From the end, where characters are dropped.
  induction cs using List.reverseRec with
  | nil => rfl
  | append_singleton cs c ih =>
    rw [Utf8.encode_append, Utf8.encode_singleton]
    cases hc : isBlankAscii c with
    | true =>
      obtain ⟨b, hbyte, hb⟩ := encodeChar_of_blank hc
      rw [hbyte, Text.dropEndWhile_append_of_all _ (List.forall_mem_singleton.mpr hb),
        Text.dropEndWhile_append_of_all _ (List.forall_mem_singleton.mpr hc), ih]
    | false =>
      have hbytes : ∀ b ∈ (encode cs ++ String.utf8EncodeChar c).getLast?,
          isBlankByte b = false := by
        intro b hb
        rw [List.getLast?_append_of_ne_nil _ String.utf8EncodeChar_ne_nil] at hb
        exact isBlankByte_of_mem hc (List.mem_of_getLast? hb)
      have hchars : ∀ x ∈ (cs ++ [c]).getLast?, isBlankAscii x = false := by
        intro x hx
        rw [List.getLast?_concat] at hx
        exact Option.some.inj hx ▸ hc
      rw [Text.dropEndWhile_of_last hbytes, Text.dropEndWhile_of_last hchars, Utf8.encode_append,
        Utf8.encode_singleton]

/-- **Trimming bytes trims characters.** -/
theorem trimBytes_encode (field : List Char) :
    trimBytes (encode field) = encode (trimAscii field) := by
  rw [trimBytes, dropWhile_encode, dropEndWhile_encode]
  rfl

/-- What is taken off beforehand would be taken off anyway. -/
theorem trim_trimAscii (field : List Char) : Text.trim (trimAscii field) = Text.trim field := by
  refine (Text.trim_eq_of_padded ?_).symm
  refine ⟨field.takeWhile isBlankAscii, (field.dropWhile isBlankAscii).rtakeWhile isBlankAscii,
    fun c hc => (isBlankAscii_cases (List.mem_takeWhile_imp hc)).2,
    fun c hc => (isBlankAscii_cases (List.mem_rtakeWhile_imp hc)).2, ?_⟩
  rw [trimAscii, Text.dropEndWhile_eq_rdropWhile, List.append_assoc,
    List.rdropWhile_append_rtakeWhile, List.takeWhile_append_dropWhile]

/-! ## Tables -/

theorem decodeFields_encode : ∀ fields : List (List Char),
    decodeFields (fields.map encode) = .ok (fields.map trimAscii)
  | [] => rfl
  | field :: fields => by
    simp [decodeFields, trimBytes_encode, Utf8.text?_encode, decodeFields_encode fields]

theorem decodeRecords_encode : ∀ records : List (List (List Char)),
    decodeRecords (records.map fun record => record.map encode) =
      .ok (records.map fun record => record.map trimAscii)
  | [] => rfl
  | record :: records => by
    simp [decodeRecords, decodeFields_encode, decodeRecords_encode records]

theorem tableOf_trimAscii (records : List (List (List Char))) :
    tableOf (records.map fun record => record.map trimAscii) = tableOf records := by
  simp [tableOf, Function.comp_def, trim_trimAscii]

/-- **The table of a text is that of its bytes**, and nothing goes wrong on the way. -/
theorem ofBytes_toUTF8 (text : String) : ofBytes text.toUTF8.data.toList = .ok (ofText text) := by
  unfold ofBytes
  rw [Utf8.toList_toUTF8, drop_orderMarkLength_encode, records_encode, decodeRecords_encode]
  simp only [tableOf_trimAscii]
  rfl

end CardContent.Csv
