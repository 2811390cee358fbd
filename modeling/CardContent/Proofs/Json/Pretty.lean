import CardContent.Json.Pretty
import CardContent.Proofs.Json
import CardContent.Proofs.Text.Words
import Mathlib

/-!
# What is in the text of a JSON value

* `Holds name value whole` says that `whole`, at any depth, has a field `name` with `value` in it.
* `Writes text name written` says that a field is written in a text.

Results:
* `pretty_arr`: the text of an array has a piece for each item.
* `writes_render_of_holds`: a field with a scalar in it is written in the text of the value.
-/

set_option autoImplicit false

namespace CardContent.Json

/-- Somewhere in a value there is an object with a field. -/
inductive Holds (name : String) (value : Json) : Json → Prop where
  | here {fields : List (String × Json)} (hmem : (name, value) ∈ fields) :
      Holds name value (.obj fields)
  | field {fields : List (String × Json)} {other : String} {inner : Json}
      (hmem : (other, inner) ∈ fields) (h : Holds name value inner) : Holds name value (.obj fields)
  | item {items : List Json} {inner : Json} (hmem : inner ∈ items) (h : Holds name value inner) :
      Holds name value (.arr items)

/-- The name of a field and what is written behind it stand in a text. -/
def Writes (text name written : String) : Prop :=
  (quote name ++ ": " ++ written).toList <:+: text.toList

variable {name : String} {value whole : Json}

/-! ## Pieces -/

theorem renderItems_eq_map (depth : Nat) : ∀ items : List Json,
    renderItems depth items = items.map fun item => newLine depth ++ render depth item
  | [] => rfl
  | item :: rest => by rw [renderItems, renderItems_eq_map depth rest, List.map_cons]

theorem renderFields_eq_map (depth : Nat) : ∀ fields : List (String × Json),
    renderFields depth fields = fields.map fun field =>
      newLine depth ++ quote field.1 ++ ": " ++ render depth field.2
  | [] => rfl
  | (name, value) :: rest => by rw [renderFields, renderFields_eq_map depth rest, List.map_cons]

/-- **The text of an array** has a piece for each item, in order. -/
theorem pretty_arr (items : List Json) : (Json.arr items).pretty =
    "[" ++ ",".intercalate (items.map fun item => newLine 1 ++ render 1 item) ++
      (if items.isEmpty then "" else "\n") ++ "]" := by
  rw [pretty, render, renderItems_eq_map]
  cases items with
  | nil => rfl
  | cons item rest => rfl

theorem isInfix_render_item {items : List Json} (h : value ∈ items) (depth : Nat) :
    (render (depth + 1) value).toList <:+: (render depth (.arr items)).toList := by
  have hjoin : (render (depth + 1) value).toList <:+:
      (",".intercalate (renderItems (depth + 1) items)).toList := by
    rw [renderItems_eq_map]
    refine .trans ?_ (Text.isInfix_join (List.mem_map_of_mem h) ",")
    rw [String.toList_append]
    exact (List.suffix_append _ _).isInfix
  obtain ⟨first, rest, rfl⟩ := List.exists_cons_of_ne_nil (List.ne_nil_of_mem h)
  rw [render, List.isEmpty_cons, if_neg Bool.false_ne_true]
  exact Text.isInfix_between hjoin "[" (newLine depth) "]"

theorem isInfix_render_field {fields : List (String × Json)} (h : (name, value) ∈ fields)
    (depth : Nat) : (quote name ++ ": " ++ render (depth + 1) value).toList <:+:
      (render depth (.obj fields)).toList := by
  have hjoin : (quote name ++ ": " ++ render (depth + 1) value).toList <:+:
      (",".intercalate (renderFields (depth + 1) fields)).toList := by
    have hpiece : newLine (depth + 1) ++ quote name ++ ": " ++ render (depth + 1) value ∈
        renderFields (depth + 1) fields := by
      rw [renderFields_eq_map]
      exact List.mem_map.mpr ⟨_, h, rfl⟩
    refine .trans ?_ (Text.isInfix_join hpiece ",")
    simp only [String.toList_append, List.append_assoc]
    exact (List.suffix_append _ _).isInfix
  obtain ⟨first, rest, rfl⟩ := List.exists_cons_of_ne_nil (List.ne_nil_of_mem h)
  rw [render, List.isEmpty_cons, if_neg Bool.false_ne_true]
  exact Text.isInfix_between hjoin "\x7b" (newLine depth) "\x7d"

/-! ## Fields -/

/-- A scalar is written alike wherever it stands. -/
theorem render_of_isScalar (h : value.IsScalar) (depth : Nat) :
    render depth value = value.pretty := by
  cases value with
  | bool b => cases b <;> simp [pretty, render]
  | null | int | real | str => simp [pretty, render]
  | arr | obj => cases h

/-- **A field with a scalar in it is written** in the text of the value, at any depth. -/
theorem writes_render_of_holds (h : Holds name value whole) (hscalar : value.IsScalar)
    (depth : Nat) : Writes (render depth whole) name value.pretty := by
  induction h generalizing depth with
  | here hmem =>
    have hfield := isInfix_render_field hmem depth
    rwa [render_of_isScalar hscalar] at hfield
  | field hmem _ ih =>
    refine (ih (depth + 1)).trans (.trans ?_ (isInfix_render_field hmem depth))
    rw [String.toList_append]
    exact (List.suffix_append _ _).isInfix
  | item hmem _ ih => exact (ih (depth + 1)).trans (isInfix_render_item hmem depth)

end CardContent.Json
