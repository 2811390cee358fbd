import CardContent.Card.Row
import CardContent.Proofs.Effect.Tree
import CardContent.Proofs.Outcome
import CardContent.Proofs.Text.Numeral

/-!
# Which rows are cards

`Leading card columns` says that `columns` are what stands in front of the effects of a card.
Whether a row is a card does not depend on what it is called in errors.

Results:
* `effectOfColumns_eq_ok_iff`: one column is the effect, and several are the parts of one.
* `ofRow_eq_ok_iff`: a row is a card exactly if it is the leading columns of the card with effect
  columns behind them.
* `ofRows_eq_ok_iff`: the cards of a table are those of its rows.
-/

set_option autoImplicit false

namespace CardContent.Card

variable {kind : Kind} {catalog : Catalog} {place : Option Nat} {row : Csv.Row} {card : Card}

/-- The columns in front of the effects of a card: its name, its cost, a numeral of the honor that
it brings, if any, and its class. -/
inductive Leading (card : Card) : List String → Prop where
  | acquirable {honor : Int32} {numeral : String} (hrole : card.role = .acquirable honor)
      (hnumeral : Numeral.Signed numeral.toList honor.toInt) :
      Leading card [card.name, card.cost.text, numeral, card.type]
  | defeatable (hrole : card.role = .defeatable) :
      Leading card [card.name, card.cost.text, card.type]

/-- The effects of several columns are one effect: that of the only column, or all of them. -/
inductive Joint : List Effect → Effect → Prop where
  | one (e : Effect) : Joint [e] e
  | several {es : List Effect} (h : 2 ≤ es.length) : Joint es (.allOf es)

theorem Joint.ne_nil {es : List Effect} {e : Effect} (h : Joint es e) : es ≠ [] := by
  cases h with
  | one => exact List.cons_ne_nil e []
  | several h => rintro rfl; simp at h

/-- A joint effect is resolved exactly if each of the effects is. -/
theorem Joint.resolved_iff {es : List Effect} {e : Effect} (h : Joint es e) :
    Effect.Resolved catalog e ↔ ∀ part ∈ es, Effect.Resolved catalog part := by
  have hne := h.ne_nil
  cases h with
  | one => exact List.forall_mem_singleton.symm
  | several => exact Effect.resolved_compound_iff.trans (and_iff_right hne)

/-- **Effect columns give an effect** exactly if each of them is a token, and it is their joint
effect. -/
theorem effectOfColumns_eq_ok_iff {label : String} {columns : List String} {e : Effect} :
    effectOfColumns catalog label columns = .ok e ↔
      ∃ es, Effect.parseAll catalog columns = .ok es ∧ Joint es e := by
  unfold effectOfColumns
  cases hparse : Effect.parseAll catalog columns with
  | error fault =>
    constructor
    · intro h; cases h
    · rintro ⟨es, h, -⟩; cases h
  | ok es =>
    simp only [Except.ok.injEq, exists_eq_left']
    cases es with
    | nil =>
      constructor
      · intro h; cases h
      · intro h; exact absurd rfl h.ne_nil
    | cons e₁ rest =>
      cases rest with
      | nil =>
        constructor
        · intro h; cases h; exact .one e
        · intro h
          cases h with
          | one => rfl
          | several h => simp at h
      | cons e₂ rest =>
        constructor
        · intro h; cases h; exact .several (Nat.le_add_left 2 rest.length)
        · intro h; cases h; rfl

/-- **A row is a card** of a kind exactly if the card is of that kind and the row is its leading
columns with columns of its effect behind them. -/
theorem ofRow_eq_ok_iff : ofRow kind catalog place row = .ok card ↔
    card.kind = kind ∧ ∃ leading columns, Leading card leading ∧ row = leading ++ columns ∧
      effectOfColumns catalog (rowLabel place row) columns = .ok card.effect := by
  constructor
  · intro h
    unfold ofRow at h
    simp only at h
    split at h
    · rename_i name cost honor type columns
      split at h
      · cases h
      · rename_i value hvalue
        obtain ⟨effect, heffect, h⟩ := bind_eq_ok_iff.mp h
        cases h
        refine ⟨rfl, [name, cost, honor, type], columns, ?_, rfl, heffect⟩
        exact .acquirable rfl (Numeral.int32?_eq_some_iff.mp hvalue)
    · rename_i name cost type columns
      obtain ⟨effect, heffect, h⟩ := bind_eq_ok_iff.mp h
      cases h
      exact ⟨rfl, [name, cost, type], columns, .defeatable rfl, rfl, heffect⟩
    · cases h
  · rintro ⟨rfl, leading, columns, hleading, rfl, heffect⟩
    obtain ⟨name, cost, type, role, effect⟩ := card
    cases hleading with
    | acquirable hrole hnumeral =>
      obtain rfl := hrole
      have hvalue := Numeral.int32?_eq_some_iff.mpr hnumeral
      simp only [ofRow, kind, Role.kind, List.cons_append, List.nil_append, hvalue]
      exact bind_eq_ok_iff.mpr ⟨effect, heffect, rfl⟩
    | defeatable hrole =>
      obtain rfl := hrole
      exact bind_eq_ok_iff.mpr ⟨effect, heffect, rfl⟩

/-! ## Tables -/

/-- The cards of a table are those of its rows. -/
theorem ofRows_eq_ok_iff {rows : List Csv.Row} {cards : List Card} :
    ofRows kind catalog rows = .ok cards ↔
      List.Forall₂ (fun row card => ofRow kind catalog (some row.2) row.1 = .ok card)
        (rows.zipIdx 1) cards :=
  mapM_eq_ok_iff

/-- Rows that are cards wherever they stand are the cards of their table. -/
theorem ofRows_of_forall₂ {rows : List Csv.Row} {cards : List Card}
    (h : List.Forall₂ (fun row card => ∀ place, ofRow kind catalog place row = .ok card)
      rows cards) : ofRows kind catalog rows = .ok cards := by
  have hplaces : List.Forall₂ (fun row card => ∀ place, ofRow kind catalog place row = .ok card)
      ((rows.zipIdx 1).map Prod.fst) cards := by
    rw [List.zipIdx_map_fst]
    exact h
  rw [List.forall₂_map_left_iff] at hplaces
  exact ofRows_eq_ok_iff.mpr (hplaces.imp fun _ _ hrow => hrow _)

end CardContent.Card
