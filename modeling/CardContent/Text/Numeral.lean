/-!
# Decimal numerals

A numeral is an optional sign and at least one ASCII digit; zeros in front are allowed. An unsigned
numeral may carry `+` only, a signed one `+` or `-`. What lies outside the range of the wanted
width is no numeral of that width. Printing gives the shortest digits and no `+`.
-/

set_option autoImplicit false

namespace CardContent.Numeral

/-- The value of a non-empty run of digits. -/
def digits? (cs : List Char) : Option Nat :=
  if !cs.isEmpty && cs.all Char.isDigit then some (Nat.ofDigitChars 10 cs 0) else none

/-- The value of a numeral that cannot be negative; `-0` is not one. -/
def unsigned? : List Char → Option Nat
  | '+' :: cs => digits? cs
  | cs => digits? cs

/-- The value of a numeral with either sign. -/
def signed? : List Char → Option Int
  | '-' :: cs => (digits? cs).map fun (n : Nat) => -(n : Int)
  | '+' :: cs => (digits? cs).map fun (n : Nat) => (n : Int)
  | cs => (digits? cs).map fun (n : Nat) => (n : Int)

/-- An unsigned numeral below `2 ^ 64`. -/
def uint64? (cs : List Char) : Option UInt64 :=
  (unsigned? cs).bind fun n => if n < UInt64.size then some (UInt64.ofNat n) else none

/-- An unsigned numeral below `2 ^ 32`. -/
def uint32? (cs : List Char) : Option UInt32 :=
  (unsigned? cs).bind fun n => if n < UInt32.size then some (UInt32.ofNat n) else none

/-- A signed numeral from `-2 ^ 31` up to `2 ^ 31 - 1`. -/
def int32? (cs : List Char) : Option Int32 :=
  (signed? cs).bind fun z =>
    if Int32.minValue.toInt ≤ z ∧ z ≤ Int32.maxValue.toInt then some (Int32.ofInt z) else none

/-- The decimal digits of a natural number. -/
def ofNat (n : Nat) : List Char :=
  Nat.toDigits 10 n

/-- The decimal digits of an integer, behind `-` if it is negative. -/
def ofInt : Int → List Char
  | .ofNat n => ofNat n
  | .negSucc n => '-' :: ofNat (n + 1)

/-- `ofNat` as a string. -/
def natText (n : Nat) : String :=
  String.ofList (ofNat n)

/-- `ofInt` as a string. -/
def intText (z : Int) : String :=
  String.ofList (ofInt z)

end CardContent.Numeral
