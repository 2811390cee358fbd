import CardContent.Text.Numeral

/-!
# Times in log lines

A time is written in the largest unit of which it has one or more, with as many decimal places as
it needs and no more.
-/

set_option autoImplicit false

namespace CardContent.Log

/-- The decimal places of a fraction in units of `10 ^ -places`, without zeros at the end. -/
def decimalPlaces (places fraction : Nat) : String :=
  let digits := (Numeral.ofNat (Nat.pow 10 places + fraction)).drop 1
  let kept := (digits.reverse.dropWhile (· == '0')).reverse
  if kept.isEmpty then "" else String.ofList ('.' :: kept)

/-- A number of nanoseconds with its unit (the `elapsed` of `CardDecoder::decode`). -/
def elapsedText (nanoseconds : Nat) : String :=
  let write (places : Nat) (unit : String) : String :=
    let one := Nat.pow 10 places
    Numeral.natText (nanoseconds / one) ++ decimalPlaces places (nanoseconds % one) ++ unit
  if 1000000000 ≤ nanoseconds then write 9 "s"
  else if 1000000 ≤ nanoseconds then write 6 "ms"
  else if 1000 ≤ nanoseconds then write 3 "µs"
  else write 0 "ns"

end CardContent.Log
