import CardContent.Card.Basic
import CardContent.Effect.Display

/-!
# Cards on one line
-/

set_option autoImplicit false

namespace CardContent

/-- The honor of a card on its line. -/
def Role.display : Role → String
  | .acquirable honor => ", honor " ++ Numeral.intText honor.toInt
  | .defeatable => ""

/-- A card on one line (`fmt` of `Card`). -/
def Card.display (card : Card) : String :=
  card.name ++ " (" ++ card.type ++ ", cost " ++ card.cost.text ++ card.role.display ++ "): " ++
    card.effect.display

end CardContent
