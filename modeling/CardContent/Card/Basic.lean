import CardContent.Effect.Basic
import CardContent.Text.Blank
import CardContent.Text.Numeral

/-!
# Cards

Cards lie in the center row and are either acquired with runes, which brings honor at the end of
the game, or defeated with power.
-/

set_option autoImplicit false

namespace CardContent

/-- The two kinds of cards (the variants of `Card`). -/
inductive Kind where
  | acquirable
  | defeatable
  deriving DecidableEq, Repr

/-- The name of a kind. -/
def Kind.name : Kind → String
  | .acquirable => "acquirable"
  | .defeatable => "defeatable"

/-- What sets the kinds apart: only an acquirable card brings honor. -/
inductive Role where
  | acquirable (honor : Int32)
  | defeatable
  deriving DecidableEq, Repr

/-- The kind of a card in a role. -/
def Role.kind : Role → Kind
  | .acquirable _ => .acquirable
  | .defeatable => .defeatable

/-- A cost as it is written on the card, which need not be a number (`Cost`). -/
structure Cost where
  text : String
  deriving DecidableEq, Repr

/-- The value of a cost that is a number below `2 ^ 32` (`Cost::amount`). -/
def Cost.amount? (cost : Cost) : Option UInt32 :=
  Numeral.uint32? (Text.trim cost.text.toList)

/-- A card (`Card`, with `Acquirable` and `Defeatable` told apart by the role). -/
structure Card where
  name : String
  cost : Cost
  /-- The class of the card, such as `Hero` or `Monster`. -/
  type : String
  role : Role
  effect : Effect
  deriving Repr

namespace Card

instance : Inhabited Card := ⟨⟨"", ⟨""⟩, "", .defeatable, default⟩⟩

/-- The kind of a card (`Card::is_acquirable`, `Card::is_defeatable`). -/
def kind (card : Card) : Kind :=
  card.role.kind

/-- The honor that a card brings (`Card::honor`). -/
def honor? (card : Card) : Option Int32 :=
  match card.role with
  | .acquirable honor => some honor
  | .defeatable => none

end Card

end CardContent
