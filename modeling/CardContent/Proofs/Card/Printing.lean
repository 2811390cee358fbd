import CardContent.Card.Display
import CardContent.Proofs.Card.Json
import CardContent.Proofs.Json.Pretty
import Mathlib

/-!
# What is printed of a card tells of it

* `Told card line` says what stands in the line of a card.
* `WrittenIn card text` says what stands in the indented text of a card.

Results:
* `told_display`: the line of a card begins with its name, and has its type, its cost, its honor and
  what its effects do.
* `writtenIn_render`: so does the indented text, each of them in a field of its own.
-/

set_option autoImplicit false

namespace CardContent

/-! ## Effects -/

namespace Leaf

theorem description_isPrefix (leaf : Leaf) : leaf.description.toList <+: leaf.display.toList := by
  rw [display, String.toList_append, String.toList_append, List.append_assoc]
  exact List.prefix_append _ _

/-- A parameter stands behind the description. -/
theorem param_isPrefix {leaf : Leaf} {p : Int32} (h : leaf.param = some p) :
    (leaf.description ++ " [" ++ Numeral.intText p.toInt ++ "]").toList <+:
      leaf.display.toList := by
  refine ⟨(optionalMark leaf.optional).toList, ?_⟩
  simp [display, h]

end Leaf

namespace Effect

mutual

/-- **Every leaf is displayed** where its effect is. -/
theorem isInfix_display : ∀ {e : Effect} {leaf : Leaf}, leaf ∈ e.leaves →
    leaf.display.toList <:+: e.display.toList
  | .simple leaf, other, h => by
    rw [leaves, List.mem_singleton] at h
    rw [h, display]
  | .compound combinator children optional, leaf, h => by
    obtain ⟨part, hpart, hleaf⟩ := exists_displays h
    exact hleaf.trans (Text.isInfix_between (Text.isInfix_join hpart "; ") _ _ _)

theorem exists_displays : ∀ {es : List Effect} {leaf : Leaf}, leaf ∈ leavesOf es →
    ∃ part ∈ displays es, leaf.display.toList <:+: part.toList
  | e :: es, leaf, h => by
    rw [leavesOf, List.mem_append] at h
    rw [displays]
    rcases h with h | h
    · exact ⟨e.display, List.mem_cons_self, isInfix_display h⟩
    · obtain ⟨part, hpart, hleaf⟩ := exists_displays h
      exact ⟨part, List.mem_cons_of_mem _ hpart, hleaf⟩

end

mutual

/-- The JSON form of an effect has the description of every leaf. -/
theorem holds_description : ∀ {e : Effect} {leaf : Leaf}, leaf ∈ e.leaves →
    Json.Holds "description" (.str leaf.description) e.toJson
  | .simple leaf, other, h => by
    rw [leaves, List.mem_singleton] at h
    rw [h, toJson, Leaf.toFields]
    exact .here (by simp)
  | .compound combinator children optional, leaf, h => by
    obtain ⟨item, hitem, hleaf⟩ := exists_toJsons h
    rw [toJson]
    exact .field (List.mem_cons_of_mem _ (List.mem_cons_of_mem _ List.mem_cons_self))
      (.item hitem hleaf)

theorem exists_toJsons : ∀ {es : List Effect} {leaf : Leaf}, leaf ∈ leavesOf es →
    ∃ item ∈ toJsons es, Json.Holds "description" (.str leaf.description) item
  | e :: es, leaf, h => by
    rw [leavesOf, List.mem_append] at h
    rw [toJsons]
    rcases h with h | h
    · exact ⟨e.toJson, List.mem_cons_self, holds_description h⟩
    · obtain ⟨item, hitem, hleaf⟩ := exists_toJsons h
      exact ⟨item, List.mem_cons_of_mem _ hitem, hleaf⟩

end

end Effect

/-! ## Cards -/

namespace Card

/-- What stands in the line of a card. -/
structure Told (card : Card) (line : String) : Prop where
  /-- The line begins with the name. -/
  name : (card.name ++ " (").toList <+: line.toList
  type : (" (" ++ card.type ++ ", cost ").toList <:+: line.toList
  cost : (", cost " ++ card.cost.text).toList <:+: line.toList
  honor : ∀ honor, card.honor? = some honor →
    (", honor " ++ Numeral.intText honor.toInt ++ "): ").toList <:+: line.toList
  /-- The description of every leaf stands there. -/
  descriptions : ∀ leaf ∈ card.effect.leaves, leaf.description.toList <:+: line.toList
  /-- And so does its parameter, if it has one. -/
  params : ∀ leaf ∈ card.effect.leaves, ∀ p, leaf.param = some p →
    (leaf.description ++ " [" ++ Numeral.intText p.toInt ++ "]").toList <:+: line.toList

/-- What stands in the indented text of a card. -/
structure WrittenIn (card : Card) (text : String) : Prop where
  kind : Json.Writes text "kind" (Json.quote card.kind.name)
  name : Json.Writes text "name" (Json.quote card.name)
  cost : Json.Writes text "cost" (Json.quote card.cost.text)
  type : Json.Writes text "card_type" (Json.quote card.type)
  honor : ∀ honor, card.honor? = some honor →
    Json.Writes text "honor" (Numeral.intText honor.toInt)
  descriptions : ∀ leaf ∈ card.effect.leaves,
    Json.Writes text "description" (Json.quote leaf.description)

/-- What stands in what a card does stands in its line. -/
theorem isInfix_display {part : List Char} {card : Card}
    (h : part <:+: card.effect.display.toList) : part <:+: card.display.toList := by
  rw [display, String.toList_append]
  exact h.trans (List.suffix_append _ _).isInfix

/-- **The line of a card tells of it.** -/
theorem told_display (card : Card) : card.Told card.display where
  name := by
    refine ⟨(card.type ++ ", cost " ++ card.cost.text ++ card.role.display ++ "): " ++
      card.effect.display).toList, ?_⟩
    simp [display]
  type := by
    refine ⟨card.name.toList,
      (card.cost.text ++ card.role.display ++ "): " ++ card.effect.display).toList, ?_⟩
    simp [display]
  cost := by
    refine ⟨(card.name ++ " (" ++ card.type).toList,
      (card.role.display ++ "): " ++ card.effect.display).toList, ?_⟩
    simp [display]
  honor honor h := by
    have hrole : card.role.display = ", honor " ++ Numeral.intText honor.toInt := by
      unfold honor? at h
      split at h
      · rename_i hrole
        cases h
        rw [hrole, Role.display]
      · cases h
    refine ⟨(card.name ++ " (" ++ card.type ++ ", cost " ++ card.cost.text).toList,
      card.effect.display.toList, ?_⟩
    simp [display, hrole]
  descriptions leaf hleaf :=
    isInfix_display (leaf.description_isPrefix.isInfix.trans (Effect.isInfix_display hleaf))
  params leaf hleaf p hp :=
    isInfix_display ((Leaf.param_isPrefix hp).isInfix.trans (Effect.isInfix_display hleaf))

/-- The JSON form of a card has these fields and the effect. -/
theorem holds_toJson {name : String} {value : Json} {card : Card}
    (h : (name, value) ∈ [("kind", .str card.kind.name), ("name", .str card.name),
      ("cost", .str card.cost.text), ("card_type", .str card.type)] ∨
      (∃ honor, card.honor? = some honor ∧ name = "honor" ∧ value = .int honor.toInt) ∨
      Json.Holds name value card.effect.toJson) : Json.Holds name value card.toJson := by
  obtain ⟨_, _, _, role, effect⟩ := card
  rcases h with h | ⟨honor, hhonor, rfl, rfl⟩ | h
  · simp only [List.mem_cons, List.not_mem_nil, or_false] at h
    cases role with
    | acquirable | defeatable =>
      refine .here ?_
      rcases h with h | h | h | h <;> simp [h, kind, Role.kind]
  · cases role with
    | acquirable other =>
      cases hhonor
      exact .here (by simp)
    | defeatable => cases hhonor
  · cases role <;> exact .field (show ("effect", effect.toJson) ∈ _ by simp) h

/-- **The indented text of a card tells of it**, however deep it stands. -/
theorem writtenIn_render (card : Card) (depth : Nat) :
    card.WrittenIn (Json.render depth card.toJson) := by
  have hstr : ∀ {name text : String}, Json.Holds name (.str text) card.toJson →
      Json.Writes (Json.render depth card.toJson) name (Json.quote text) := fun h => by
    have hwrites := Json.writes_render_of_holds h (Json.isScalar_str _) depth
    rwa [Json.pretty, Json.render] at hwrites
  exact
    { kind := hstr (holds_toJson (.inl (by simp)))
      name := hstr (holds_toJson (.inl (by simp)))
      cost := hstr (holds_toJson (.inl (by simp)))
      type := hstr (holds_toJson (.inl (by simp)))
      honor := fun honor h => by
        have hholds := holds_toJson (.inr (.inl ⟨honor, h, rfl, rfl⟩))
        have hwrites := Json.writes_render_of_holds hholds (Json.isScalar_int _) depth
        rwa [Json.pretty, Json.render] at hwrites
      descriptions := fun leaf hleaf =>
        hstr (holds_toJson (.inr (.inr (Effect.holds_description hleaf)))) }

/-- What is written of a card is so behind anything. -/
theorem WrittenIn.behind {card : Card} {text : String} (h : card.WrittenIn text)
    (front : String) : card.WrittenIn (front ++ text) := by
  have hmore : ∀ {name written : String}, Json.Writes text name written →
      Json.Writes (front ++ text) name written := fun hwrites => by
    refine hwrites.trans ?_
    rw [String.toList_append]
    exact (List.suffix_append _ _).isInfix
  exact
    { kind := hmore h.kind
      name := hmore h.name
      cost := hmore h.cost
      type := hmore h.type
      honor := fun honor hhonor => hmore (h.honor honor hhonor)
      descriptions := fun leaf hleaf => hmore (h.descriptions leaf hleaf) }

end Card

end CardContent
