/-!
# Cutting CSV into records and fields

Fields are separated by commas and records end at a carriage return or a line feed; a line without
anything on it is no record. A field whose first symbol is a quote is quoted: up to the next quote
that is not doubled everything stands for itself, a doubled quote for one. What follows the closing
quote belongs to the field as it stands. Quotes anywhere else are ordinary.

The scanner works on any kind of symbol, so that text and bytes are cut in the same way: it asks
only which of four marks a symbol is. It goes over the input once, symbol by symbol.
-/

set_option autoImplicit false

namespace CardContent.Csv

/-- What a symbol means outside quotes. -/
inductive Mark where
  | comma
  | quote
  | lineEnd
  | plain
  deriving DecidableEq, Repr

/-- The mark of a symbol given by its code, that of a character or a byte. -/
def Mark.ofCode (code : Nat) : Mark :=
  if code = 0x2C then .comma
  else if code = 0x22 then .quote
  else if code = 0x0A ∨ code = 0x0D then .lineEnd
  else .plain

/-- Where in a record the scanner stands. -/
inductive Mode where
  /-- In front of a record. -/
  | recordStart
  /-- In front of a field that is not the first of its record. -/
  | fieldStart
  /-- In a part of a field that is not quoted. -/
  | bare
  /-- Between the quotes of a field. -/
  | quoted
  /-- Behind a quote met between quotes. -/
  | quoteSeen
  deriving DecidableEq, Repr

variable {σ : Type}

/-- The state of a scan: what is complete, and what is not yet. All lists have the last first. -/
structure Scan (σ : Type) where
  mode : Mode
  field : List σ
  fields : List (List σ)
  records : List (List (List σ))
  deriving DecidableEq, Repr

namespace Scan

/-- The state in front of the input. -/
def start : Scan σ where
  mode := .recordStart
  field := []
  fields := []
  records := []

/-- Add a symbol to the field. -/
def push (s : Scan σ) (mode : Mode) (x : σ) : Scan σ :=
  { s with mode, field := x :: s.field }

/-- Complete the field. -/
def endField (s : Scan σ) : Scan σ :=
  { s with mode := .fieldStart, field := [], fields := s.field.reverse :: s.fields }

/-- Complete the field and the record. -/
def endRecord (s : Scan σ) : Scan σ where
  mode := .recordStart
  field := []
  fields := []
  records := (s.field.reverse :: s.fields).reverse :: s.records

/-- Take one symbol with the mark `m`. -/
def step (s : Scan σ) (m : Mark) (x : σ) : Scan σ :=
  match s.mode, m with
  | .recordStart, .lineEnd => s
  | .recordStart, .quote | .fieldStart, .quote => { s with mode := .quoted }
  | .quoted, .quote => { s with mode := .quoteSeen }
  | .quoted, _ | .quoteSeen, .quote => s.push .quoted x
  | _, .comma => s.endField
  | _, .lineEnd => s.endRecord
  | _, _ => s.push .bare x

/-- Take symbols one after the other. -/
def run (mark : σ → Mark) (s : Scan σ) (input : List σ) : Scan σ :=
  input.foldl (fun s x => s.step (mark x) x) s

@[simp] theorem run_nil (mark : σ → Mark) (s : Scan σ) : s.run mark [] = s := rfl

@[simp] theorem run_cons (mark : σ → Mark) (s : Scan σ) (x : σ) (input : List σ) :
    s.run mark (x :: input) = (s.step (mark x) x).run mark input := rfl

@[simp] theorem run_append (mark : σ → Mark) (s : Scan σ) (front input : List σ) :
    s.run mark (front ++ input) = (s.run mark front).run mark input :=
  List.foldl_append

/-- The records at the end of the input, which completes the one that has begun. -/
def finish (s : Scan σ) : List (List (List σ)) :=
  if s.mode = .recordStart then s.records.reverse else s.endRecord.records.reverse

/-- The number of symbols taken until `k` records are complete. -/
def lengthUntil (mark : σ → Mark) (k : Nat) : Scan σ → List σ → Nat
  | _, [] => 0
  | s, x :: rest =>
    if k ≤ s.records.length then 0 else 1 + lengthUntil mark k (s.step (mark x) x) rest

end Scan

/-- The records of an input. -/
def records (mark : σ → Mark) (input : List σ) : List (List (List σ)) :=
  (Scan.start.run mark input).finish

end CardContent.Csv
