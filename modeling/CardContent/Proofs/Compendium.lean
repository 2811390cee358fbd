import CardContent.Compendium
import CardContent.Name.Table
import CardContent.Proofs.Roster
import Mathlib.Data.List.Lattice

/-!
# A compendium is the list of its cards

* `Filled cards c` says that `c` came about by taking in `cards` in this order: some of them all at
  once to begin with, the others one by one.
* `Presents cards c` says what can be seen of a compendium that holds a list of cards: the list
  itself and its two kinds, and by each name the last card whose name has the same key.

Results:
* `eq_ofCards_of_filled`: how the cards were taken in makes no difference.
* `indexed_ofCards`: whatever the cards are, positions and cards agree.
* `card?_ofCards`, `knows_ofCards`: what a name finds, and whether it finds anything.
* `presents_of_filled`: a compendium presents the cards that it was filled with.
-/

set_option autoImplicit false

namespace CardContent.Compendium

variable {cards : List Card} {c : Compendium}

/-! ## The two kinds -/

theorem kind_of_mem_ofKind {kind : Kind} {card : Card} (h : card ∈ c.ofKind kind) :
    card.kind = kind :=
  of_decide_eq_true (List.mem_filter.mp h).2

theorem sublist_ofKind (h : c.toList = cards) (kind : Kind) : (c.ofKind kind).Sublist cards := by
  rw [← h]
  exact List.filter_sublist

theorem disjoint_ofKind (c : Compendium) :
    (c.ofKind .acquirable).Disjoint (c.ofKind .defeatable) := by
  intro card hacquirable hdefeatable
  have hkinds := (kind_of_mem_ofKind hacquirable).symm.trans (kind_of_mem_ofKind hdefeatable)
  cases hkinds

/-- The cards of either kind are all cards. -/
theorem perm_ofKind (h : c.toList = cards) :
    (c.ofKind .acquirable ++ c.ofKind .defeatable).Perm cards := by
  have hother : c.ofKind .defeatable =
      c.toList.filter fun card => !decide (card.kind = .acquirable) := by
    refine List.filter_congr fun card _ => ?_
    cases card.kind <;> rfl
  rw [hother, ← h]
  exact List.filter_append_perm _ c.toList

section Presented

variable [Name.Spelling]

/-! ## What is seen of a compendium -/

/-- `c` was filled with `cards`, in this order. -/
inductive Filled : List Card → Compendium → Prop where
  | empty : Filled [] Roster.empty
  | ofCards (cards : List Card) : Filled cards (ofCards cards)
  | add {cards : List Card} {c : Compendium} (h : Filled cards c) (card : Card) :
      Filled (cards ++ [card]) (c.add card)

/-- What is seen of a compendium of these cards. -/
structure Presents (cards : List Card) (c : Compendium) : Prop where
  /-- All cards are there, in order, whatever their names. -/
  toList : c.toList = cards
  size : c.size = cards.length
  /-- A name finds the last card whose name has the same key. -/
  card? : ∀ name,
    c.card? name = (cards.filter fun card => Name.key card.name = Name.key name).getLast?
  /-- No position leads outside the cards. -/
  bounded : ∀ (key : String) (i : Nat), c.positions[key]? = some i → i < c.entries.size
  knows : ∀ name, c.knows name = (c.card? name).isSome
  /-- The cards of a kind are of that kind and in order. -/
  ofKind : ∀ kind, (c.ofKind kind).Sublist cards ∧ ∀ card ∈ c.ofKind kind, card.kind = kind
  /-- No card is of both kinds. -/
  disjoint : (c.ofKind .acquirable).Disjoint (c.ofKind .defeatable)
  /-- Each card is of one kind. -/
  covered : (c.ofKind .acquirable ++ c.ofKind .defeatable).Perm cards
  /-- To add cards is to have more from the start. -/
  addAll : ∀ later, c.addAll later = ofCards (cards ++ later)

/-! ## Taking in cards -/

theorem addAll_ofCards (cards later : List Card) :
    (ofCards cards).addAll later = ofCards (cards ++ later) :=
  List.foldl_append.symm

theorem add_ofCards (cards : List Card) (card : Card) :
    (ofCards cards).add card = ofCards (cards ++ [card]) :=
  addAll_ofCards cards [card]

/-- **A compendium is determined by its cards**, in whatever way it was filled. -/
theorem eq_ofCards_of_filled (h : Filled cards c) : c = ofCards cards := by
  induction h with
  | empty => rfl
  | ofCards cards => rfl
  | add _ card ih => rw [ih, add_ofCards]

/-- **Positions and cards agree**, however often a key occurs. -/
theorem indexed_ofCards (cards : List Card) :
    Roster.Indexed (fun card => Name.key card.name) (ofCards cards) :=
  Roster.indexed_foldl_insert Roster.indexed_empty cards

/-! ## Looking up -/

/-- **A name finds the last card with its key.** -/
theorem card?_ofCards (cards : List Card) (name : String) :
    (ofCards cards).card? name =
      (cards.filter fun card => Name.key card.name = Name.key name).getLast? := by
  rw [card?, (indexed_ofCards cards).latest, toList_ofCards]

/-- **A name is known** exactly if it finds a card. -/
theorem knows_ofCards (cards : List Card) (name : String) :
    (ofCards cards).knows name = ((ofCards cards).card? name).isSome :=
  (indexed_ofCards cards).contains_eq (Name.key name)

/-! ## All at once -/

/-- **A compendium presents the cards that it was filled with.** -/
theorem presents_of_filled (h : Filled cards c) : Presents cards c := by
  obtain rfl := eq_ofCards_of_filled h
  have hlist := toList_ofCards cards
  exact
    { toList := hlist
      size := by rw [Roster.size_eq_length, hlist]
      card? := card?_ofCards cards
      bounded := (indexed_ofCards cards).bounded
      knows := knows_ofCards cards
      ofKind := fun kind => ⟨sublist_ofKind hlist kind, fun card hcard => kind_of_mem_ofKind hcard⟩
      disjoint := disjoint_ofKind (ofCards cards)
      covered := perm_ofKind hlist
      addAll := addAll_ofCards cards }

end Presented

section Example

open scoped Name.Table

/-- A card of a name in some spelling. -/
def mystic (name : String) (honor : Int32) : Card where
  name := name
  cost := ⟨"3"⟩
  type := "Hero"
  role := .acquirable honor
  effect := .simple ⟨1, "Gain 1 rune.", none, false⟩

/-- A card of another name and of the other kind. -/
def cultist : Card where
  name := "Cultist"
  cost := ⟨"2"⟩
  type := "Monster"
  role := .defeatable
  effect := .simple ⟨2, "Gain 1 power.", some 1, true⟩

theorem presents_mystics :
    let cards := [mystic "Mystic" 1, cultist, mystic " MYSTIC" 5]
    let c := (ofCards [mystic "Mystic" 1, cultist]).add (mystic " MYSTIC" 5)
    Filled cards c ∧ Presents cards c ∧
      c.card? "mystic" = some (mystic " MYSTIC" 5) ∧ c.card? "Tyrant" = none := by
  intro cards c
  have hfilled : Filled cards c :=
    (Filled.ofCards [mystic "Mystic" 1, cultist]).add (mystic " MYSTIC" 5)
  have hpresents := presents_of_filled hfilled
  refine ⟨hfilled, hpresents, ?_, ?_⟩
  · rw [hpresents.card?]
    rfl
  · rw [hpresents.card?]
    rfl

end Example

end CardContent.Compendium
