import CardContent.Card.Row
import CardContent.Compendium
import CardContent.Content.Source
import CardContent.Deck

/-!
# Content and how it is decoded

Content is the catalog of effects and the cards that refer to it, acquirable cards first. It is
decoded as a whole: all resources are read before the first row is looked at, and one bad row
leaves nothing. The starting deck is a resource of its own.
-/

set_option autoImplicit false

namespace CardContent

/-- Decoded content (`CardDecoder`). -/
structure Content where
  catalog : Catalog
  compendium : Compendium

namespace Content

/-- All cards: acquirable ones, then defeatable ones, each in the order of their table
(`CardDecoder::cards`). -/
def cards (content : Content) : List Card :=
  content.compendium.toList

/-- Read and decode all content of a source (`CardDecoder::decode`). -/
def decode [Name.Spelling] (source : Source) : Logged Content := do
  let catalog := Catalog.ofList (← source.lines Resource.effects.name)
  Logged.log [.effectsLoaded (catalog.size - 1)]
  let acquirableRows ← source.rows (Resource.cards .acquirable).name
  let defeatableRows ← source.rows (Resource.cards .defeatable).name
  let acquirables ← Logged.ofExcept (Card.ofRows .acquirable catalog acquirableRows)
  let defeatables ← Logged.ofExcept (Card.ofRows .defeatable catalog defeatableRows)
  let cards := acquirables ++ defeatables
  Logged.log (cards.map .cardDecoded)
  Logged.log [.allDecoded cards.length acquirables.length (cards.length - acquirables.length)]
  Logged.log ((Compendium.shadowing Roster.empty cards).map fun card => .nameTaken card.name)
  return { catalog, compendium := .ofCards cards }

end Content

/-- Read the starting deck of a source (`read_card_counts`). -/
def Deck.read [Name.Spelling] (source : Source) : Logged Deck := do
  Logged.ofExcept (Deck.ofLines (← source.lines Resource.counts.name))

theorem Deck.outcome_read [Name.Spelling] (source : Source) :
    (Deck.read source).outcome =
      (source.lines Resource.counts.name).outcome >>= Deck.ofLines := by
  rw [Deck.read, Logged.outcome_bind]
  rfl

end CardContent
