/-!
# JSON values

Cards, effects and listings are exchanged as JSON. An object keeps its fields in the order in which
they were put in. A number is either an integer or not; one that is written with a fraction or an
exponent is not, whatever its value, and is kept as it is written.
-/

set_option autoImplicit false

namespace CardContent

/-- A JSON value. -/
inductive Json where
  | null
  | bool (b : Bool)
  | int (n : Int)
  | real (text : String)
  | str (s : String)
  | arr (items : List Json)
  | obj (fields : List (String × Json))
  deriving Inhabited

namespace Json

/-- The text of a string value. -/
def text? : Json → Option String
  | .str s => some s
  | _ => none

/-- The value of a truth value. -/
def bool? : Json → Option Bool
  | .bool b => some b
  | _ => none

/-- The value of an integer from `0` up to `2 ^ 64 - 1`. -/
def uint64? : Json → Option UInt64
  | .int n => if 0 ≤ n ∧ n < UInt64.size then some (UInt64.ofNat n.toNat) else none
  | _ => none

/-- The value of an integer from `-2 ^ 31` up to `2 ^ 31 - 1`. -/
def int32? : Json → Option Int32
  | .int n =>
    if Int32.minValue.toInt ≤ n ∧ n ≤ Int32.maxValue.toInt then some (Int32.ofInt n) else none
  | _ => none

/-- Which of `names` a tag stands for. A tag is spelled out; inside another value, where
`nested` holds, the place of its name in the list will do as well. -/
def tag? (names : List String) (nested : Bool) : Json → Option Nat
  | .str s => names.idxOf? s
  | .int n => if nested && decide (0 ≤ n ∧ n < names.length) then some n.toNat else none
  | _ => none

end Json

end CardContent
