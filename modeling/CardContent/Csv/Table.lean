import CardContent.Csv.Scan
import CardContent.Text.Blank
import CardContent.Text.Numeral
import CardContent.Text.Utf8

/-!
# Tables of trimmed fields

A table is read from CSV text or from the bytes of it. A byte order mark in front is no part of
the first field. Fields are trimmed, rows may differ in width, and a row without text is left out.
Bytes are read as text field by field, and the first field that is not text stops the reading. The
white space of ASCII goes before a field is read as text, that of Unicode afterwards.
-/

set_option autoImplicit false

namespace CardContent.Csv

/-- A row of fields (`Row`). -/
abbrev Row := List String

/-- The first field that is not UTF-8 text, and where it stands. -/
structure Fault where
  /-- The number of records in front of that of the field; rows without text count. -/
  record : Nat
  /-- One more than the number of line feeds up to the end of the record in front. -/
  line : Nat
  /-- The number of fields in front of it in its record. -/
  field : Nat
  /-- The number of bytes up to the end of the record in front, its line end included. -/
  byte : Nat
  /-- The number of bytes of the field that are text, white space in front not counted. -/
  validLength : Nat
  deriving DecidableEq, Repr

/-- The text of a fault. -/
def Fault.message (fault : Fault) : String :=
  let field := Numeral.natText fault.field
  "CSV parse error: record " ++ Numeral.natText fault.record ++
    " (line " ++ Numeral.natText fault.line ++ ", field: " ++ field ++
    ", byte: " ++ Numeral.natText fault.byte ++ "): invalid utf-8: invalid UTF-8 in field " ++
    field ++ " near byte index " ++ Numeral.natText fault.validLength

/-- The table of records: fields trimmed, rows without text left out (the loop of `parse_csv`). -/
def tableOf (records : List (List (List Char))) : List Row :=
  (records.map fun record => record.map fun field => String.ofList (Text.trim field)).filter
    fun row => !row.all String.isEmpty

/-! ## From text -/

/-- The mark of a character. -/
def charMark (c : Char) : Mark :=
  Mark.ofCode c.toNat

/-- A text without the byte order mark in front. -/
def dropCharMark : List Char → List Char
  | '\uFEFF' :: rest => rest
  | text => text

/-- The table that a text is (`parse_csv` on the bytes of a text). -/
def ofText (text : String) : List Row :=
  tableOf (records charMark (dropCharMark text.toList))

/-! ## From bytes -/

/-- The mark of a byte. -/
def byteMark (b : UInt8) : Mark :=
  Mark.ofCode b.toNat

/-- The number of bytes of the byte order mark in front. -/
def orderMarkLength : List UInt8 → Nat
  | 0xEF :: 0xBB :: 0xBF :: _ => 3
  | _ => 0

/-- Whether a byte is white space at the ends of a field: a space, a tab, a line feed, a form feed
or a carriage return. A vertical tab goes later, with the white space of Unicode. -/
def isBlankByte (b : UInt8) : Bool :=
  b == 0x20 || b == 0x09 || b == 0x0A || b == 0x0C || b == 0x0D

/-- A field without the white space at its two ends. -/
def trimBytes (field : List UInt8) : List UInt8 :=
  Text.dropEndWhile isBlankByte (field.dropWhile isBlankByte)

/-- Read the trimmed fields of a record as text, up to the first that is none: its place in the
record and the number of its bytes that are text. -/
def decodeFields : List (List UInt8) → Except (Nat × Nat) (List (List Char))
  | [] => .ok []
  | field :: rest =>
    let bytes := (trimBytes field).toByteArray
    match Utf8.text? bytes with
    | none => .error (0, Utf8.validLength bytes)
    | some text =>
      match decodeFields rest with
      | .ok texts => .ok (text.toList :: texts)
      | .error (place, length) => .error (place + 1, length)

/-- Read the fields of several records as text; an error carries the place of its record too. -/
def decodeRecords :
    List (List (List UInt8)) → Except (Nat × Nat × Nat) (List (List (List Char)))
  | [] => .ok []
  | record :: rest =>
    match decodeFields record with
    | .error fault => .error (0, fault)
    | .ok fields =>
      match decodeRecords rest with
      | .ok decoded => .ok (fields :: decoded)
      | .error (place, fault) => .error (place + 1, fault)

/-- The number of bytes up to the end of the first `k` records, the byte order mark included. -/
def endOfRecords (bytes : List UInt8) (k : Nat) : Nat :=
  if k = 0 then 0
  else
    let skipped := orderMarkLength bytes
    skipped + Scan.start.lengthUntil byteMark k (bytes.drop skipped)

/-- The table that bytes are (`parse_csv`). -/
def ofBytes (bytes : List UInt8) : Except Fault (List Row) :=
  match decodeRecords (records byteMark (bytes.drop (orderMarkLength bytes))) with
  | .ok decoded => .ok (tableOf decoded)
  | .error (record, field, validLength) =>
    let byte := endOfRecords bytes record
    let line := 1 + (bytes.take byte).count 0x0A
    .error { record, line, field, byte, validLength }

end CardContent.Csv
