import CardContent.Name.Table
import CardContent.Proofs.Content.Decode
import CardContent.Proofs.Effect.Grammar
import Mathlib

/-!
# Decoded content is resolved

What the grammar derives is resolved: a leaf has the number and the description of a place of the
catalog, and a compound has the parts that stand between its parentheses. Nothing that is done
with effects on the way to a card can change that.

Results:
* `resolved_of_derives`: every derived effect is resolved.
* `resolved_of_ofRow`: the effect of a card made of a row is resolved.
* `resolved_of_decode`: so is that of every card of a content.
* `card_effect_resolved`: the same for whatever is decoded or loaded and listed or looked up.
-/

set_option autoImplicit false

namespace CardContent

variable {catalog : Catalog}

/-! ## Effects -/

namespace Effect

mutual

/-- **Derived effects are resolved.** By induction on the derivation. -/
theorem resolved_of_derives : ∀ {token : List Char} {e : Effect}, Derives catalog token e →
    Resolved catalog e
  | _, _, .simple _ _ hlow hhigh hdescription _ _ =>
    resolved_simple_iff.mpr (Catalog.get?_eq_some_iff.mpr ⟨hlow, hhigh, hdescription⟩)
  | _, _, .compound hparts => resolved_compound_iff.mpr (resolved_of_derivesParts hparts)

/-- A compound has parts, and all of them are resolved. -/
theorem resolved_of_derivesParts : ∀ {text : List Char} {es : List Effect},
    DerivesParts catalog text es → es ≠ [] ∧ ∀ e ∈ es, Resolved catalog e
  | _, _, .last h _ => ⟨List.cons_ne_nil _ _, List.forall_mem_singleton.mpr (resolved_of_derives h)⟩
  | _, _, .cons h _ hrest =>
    ⟨List.cons_ne_nil _ _,
      List.forall_mem_cons.mpr ⟨resolved_of_derives h, (resolved_of_derivesParts hrest).2⟩⟩

end

theorem resolved_of_parse {token : String} {e : Effect} (h : parse catalog token = .ok e) :
    Resolved catalog e :=
  resolved_of_derives (derives_of_readChars token.toList h)

theorem resolved_of_parseAll {tokens : List String} {es : List Effect}
    (h : parseAll catalog tokens = .ok es) : ∀ e ∈ es, Resolved catalog e :=
  forall_mem_of_mapM (fun _ _ => resolved_of_parse) h

end Effect

/-! ## Cards -/

namespace Card

theorem resolved_of_ofRow {kind : Kind} {place : Option Nat} {row : Csv.Row} {card : Card}
    (h : ofRow kind catalog place row = .ok card) : Effect.Resolved catalog card.effect := by
  obtain ⟨-, leading, columns, -, -, heffect⟩ := ofRow_eq_ok_iff.mp h
  obtain ⟨es, hes, hjoint⟩ := effectOfColumns_eq_ok_iff.mp heffect
  exact hjoint.resolved_iff.mpr (Effect.resolved_of_parseAll hes)

theorem resolved_of_ofRows {kind : Kind} {rows : List Csv.Row} {cards : List Card}
    (h : ofRows kind catalog rows = .ok cards) :
    ∀ card ∈ cards, Effect.Resolved catalog card.effect :=
  forall_mem_of_mapM (fun _ _ => resolved_of_ofRow) h

end Card

/-! ## Contents -/

namespace Content

section Decoded

variable [Name.Spelling] {source : Source} {content : Content}

/-- **Every card of a decoded content is resolved.** -/
theorem resolved_of_decode (h : (decode source).outcome = .ok content) :
    ∀ card ∈ content.cards, Effect.Resolved content.catalog card.effect := by
  obtain ⟨lines, rows, cards, hdecoded⟩ := decode_eq_ok_iff.mp h
  intro card hcard
  rw [hdecoded.cards_eq] at hcard
  rw [hdecoded.catalog]
  rcases List.mem_append.mp hcard with hcard | hcard
  · exact Card.resolved_of_ofRows (hdecoded.made .acquirable) card hcard
  · exact Card.resolved_of_ofRows (hdecoded.made .defeatable) card hcard

/-- **Decoded content is always resolved**, whatever the source and whether it was decoded or
loaded: on every card that is listed or found by a name, every leaf at any depth has a number of
the catalog and the description that goes with it, and every compound has a part. -/
theorem card_effect_resolved (source : Source) (guard : LoadGuard) (content : Content)
    (hcontent : (decode source).outcome = .ok content ∨
      (guard.load source).1.outcome = .ok content)
    (card : Card)
    (hcard : card ∈ content.cards ∨ ∃ name, content.compendium.card? name = some card) :
    (∀ leaf ∈ card.effect.leaves,
      1 ≤ leaf.index.toNat ∧ leaf.index.toNat < content.catalog.size ∧
        content.catalog.get? leaf.index = some leaf.description) ∧
      ∀ part ∈ card.effect.parts, part.children? ≠ some [] := by
  have hdecode : (decode source).outcome = .ok content := by
    rcases hcontent with h | h
    · exact h
    · exact decode_of_load h
  have hlisted : card ∈ content.cards := by
    rcases hcard with h | ⟨name, h⟩
    · exact h
    · exact Roster.mem_toList_of_find? h
  have hresolved := resolved_of_decode hdecode card hlisted
  refine ⟨fun leaf hleaf => ?_, hresolved.compounds⟩
  obtain ⟨hlow, hhigh⟩ := hresolved.leaves leaf hleaf
  exact ⟨hlow, hhigh, hresolved.described leaf hleaf⟩

end Decoded

section Example

open scoped Name.Table

/-- Two descriptions and three blank lines. -/
def seerEffects : String :=
  "Gain 1 rune.\nDraw a card.\n\n \r\n"

/-- A card with two effect columns, one of them nested and with spaces in it, and no monster. -/
def seerTexts (effects : String) : String → Option String
  | "effects.txt" => some effects
  | "acquirable.csv" => some "Seer,2,1,Hero,OR(2(3);AND( 1 ()))?,1(-1)\n"
  | "defeatable.csv" => some ""
  | _ => none

/-- The card of `seerTexts`. -/
def seer : Card where
  name := "Seer"
  cost := ⟨"2"⟩
  type := "Hero"
  role := .acquirable 1
  effect := .allOf [
    .compound .one [.simple ⟨2, "Draw a card.", some 3, false⟩,
      .compound .all [.simple ⟨1, "Gain 1 rune.", none, false⟩] false] true,
    .simple ⟨1, "Gain 1 rune.", some (-1), false⟩]

theorem seer_effect_resolved :
    let content : Content := ⟨.ofList ["Gain 1 rune.", "Draw a card."], .ofCards [seer]⟩
    (LoadGuard.fresh.load (.memory (seerTexts seerEffects))).1.outcome = .ok content ∧
      content.compendium.card? "SEER" = some seer ∧
      (∀ leaf ∈ seer.effect.leaves,
        1 ≤ leaf.index.toNat ∧ leaf.index.toNat < content.catalog.size ∧
          content.catalog.get? leaf.index = some leaf.description) ∧
      ∀ part ∈ seer.effect.parts, part.children? ≠ some [] := by
  intro content
  have hload : (LoadGuard.fresh.load (.memory (seerTexts seerEffects))).1.outcome =
      .ok content := by
    cbv
  have hfound : content.compendium.card? "SEER" = some seer := by cbv
  exact ⟨hload, hfound, card_effect_resolved (.memory (seerTexts seerEffects)) .fresh content
    (Or.inr hload) seer (Or.inr ⟨"SEER", hfound⟩)⟩

end Example

end Content

end CardContent
