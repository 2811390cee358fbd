import CardContent.Card.Basic
import CardContent.Effect.Json

/-!
# Cards as JSON

A card is an object whose field `kind` says which kind it is. It is read by the same rules as an
effect: fields in any order, unknown ones passed over, or an array of the tag and the fields.
-/

set_option autoImplicit false

namespace CardContent

namespace Kind

/-- The tags of the kinds. -/
def tags : List String := [acquirable.name, defeatable.name]

/-- The kind that a tag stands for. -/
def ofJson? (tag : Json) : Option Kind :=
  match Json.tag? tags false tag with
  | some 0 => some .acquirable
  | some 1 => some .defeatable
  | _ => none

end Kind

namespace Card

/-- The JSON form of a card (the derived `Serialize` of `Card`). -/
def toJson (card : Card) : Json :=
  match card.role with
  | .acquirable honor =>
    .obj [("kind", .str Kind.acquirable.name), ("name", .str card.name),
      ("cost", .str card.cost.text), ("honor", .int honor.toInt), ("card_type", .str card.type),
      ("effect", card.effect.toJson)]
  | .defeatable =>
    .obj [("kind", .str Kind.defeatable.name), ("name", .str card.name),
      ("cost", .str card.cost.text), ("card_type", .str card.type),
      ("effect", card.effect.toJson)]

/-- An acquirable card from its five fields. -/
def acquirableOfValues? (name cost honor type effect : Json) : Option Card := do
  return {
    name := ← name.text?
    cost := ⟨← cost.text?⟩
    role := .acquirable (← honor.int32?)
    type := ← type.text?
    effect := ← Effect.ofJsonAt? true effect }

/-- A defeatable card from its four fields. -/
def defeatableOfValues? (name cost type effect : Json) : Option Card := do
  return {
    name := ← name.text?
    cost := ⟨← cost.text?⟩
    role := .defeatable
    type := ← type.text?
    effect := ← Effect.ofJsonAt? true effect }

/-- Read a card (the derived `Deserialize` of `Card`). -/
def ofJson? : Json → Option Card
  | .obj fields => do
    match ← Kind.ofJson? (← fields.lookup "kind") with
    | .acquirable =>
      acquirableOfValues? (← fields.lookup "name") (← fields.lookup "cost")
        (← fields.lookup "honor") (← fields.lookup "card_type") (← fields.lookup "effect")
    | .defeatable =>
      defeatableOfValues? (← fields.lookup "name") (← fields.lookup "cost")
        (← fields.lookup "card_type") (← fields.lookup "effect")
  | .arr [tag, name, cost, honor, type, effect] => do
    match ← Kind.ofJson? tag with
    | .acquirable => acquirableOfValues? name cost honor type effect
    | .defeatable => none
  | .arr [tag, name, cost, type, effect] => do
    match ← Kind.ofJson? tag with
    | .acquirable => none
    | .defeatable => defeatableOfValues? name cost type effect
  | _ => none

end Card

end CardContent
