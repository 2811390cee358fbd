import CardContent.Card.Basic
import CardContent.Name.Key
import CardContent.Roster

/-!
# All cards, found by name

The compendium keeps the cards in the order in which they came. Two cards may share a name; look-up
then finds the later one, by any name with the same key.
-/

set_option autoImplicit false

namespace CardContent

/-- Cards in order of arrival, found by name (`CardDatabase`). -/
abbrev Compendium := Roster Card

namespace Compendium

/-- The cards of one kind, in order (`CardDatabase::acquirables`, `CardDatabase::defeatables`). -/
def ofKind (c : Compendium) (kind : Kind) : List Card :=
  c.toList.filter fun card => card.kind = kind

variable [Name.Spelling]

/-- Add a card, which hides an earlier one of the same name (`CardDatabase::add_card`). -/
def add (c : Compendium) (card : Card) : Compendium :=
  c.insert (Name.key card.name) card

/-- Add cards one after the other. -/
def addAll (c : Compendium) (cards : List Card) : Compendium :=
  cards.foldl add c

/-- The compendium of these cards, in this order (`CardDatabase::from_cards`). -/
def ofCards (cards : List Card) : Compendium :=
  addAll Roster.empty cards

/-- The card that a name finds (`CardDatabase::get_card`). -/
def card? (c : Compendium) (name : String) : Option Card :=
  c.find? (Name.key name)

/-- Whether a name finds a card (`CardDatabase::contains`). -/
def knows (c : Compendium) (name : String) : Bool :=
  c.contains (Name.key name)

theorem toList_addAll (c : Compendium) (cards : List Card) :
    (c.addAll cards).toList = c.toList ++ cards :=
  Roster.toList_foldl_insert (fun card : Card => Name.key card.name) c cards

@[simp] theorem toList_ofCards (cards : List Card) : (ofCards cards).toList = cards := by
  rw [ofCards, toList_addAll, Roster.toList_empty, List.nil_append]

/-- Those of `cards` whose name already finds a card when they are added in their turn. -/
def shadowing (c : Compendium) : List Card → List Card
  | [] => []
  | card :: rest =>
    let later := shadowing (c.add card) rest
    if c.knows card.name then card :: later else later

end Compendium

end CardContent
