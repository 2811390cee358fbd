import CardContent.Json.Basic
import Mathlib

/-!
# JSON values up to the order of fields

* `Alike v w` says that two values are the same if the order of the fields of an object does not
  count. Of several fields of one name the first counts, as in reading.
* `IsScalar v` says that a value has no values in it.
* `restate change fields` drops fields and changes the values of others, by their names.

Results:
* `text?_eq_some_iff`, `bool?_eq_some_iff`, `uint64?_eq_some_iff`, `int32?_eq_some_iff`: what is
  read of a scalar can be written again, and is then what was read.
* `alike_obj_iff`: objects are alike if they are under the names that occur in them.
* `lookup_restate`: what is found in a restated object.
-/

set_option autoImplicit false

namespace CardContent.Json

/-! ## Scalars -/

theorem text?_eq_some_iff {value : Json} {s : String} :
    value.text? = some s ↔ value = .str s := by
  cases value <;> simp [text?]

theorem bool?_eq_some_iff {value : Json} {b : Bool} :
    value.bool? = some b ↔ value = .bool b := by
  cases value <;> simp [bool?]

theorem uint64?_eq_some_iff {value : Json} {n : UInt64} :
    value.uint64? = some n ↔ value = .int n.toNat := by
  cases value with
  | int z =>
    simp only [uint64?, Option.ite_none_right_eq_some, Option.some.injEq, int.injEq]
    constructor
    · rintro ⟨⟨hlow, hhigh⟩, rfl⟩
      have hsize : z.toNat < UInt64.size := by omega
      rw [UInt64.toNat_ofNat_of_lt' hsize]
      omega
    · rintro rfl
      have hsize := n.toNat_lt_size
      exact ⟨⟨by omega, by omega⟩, by simp⟩
  | null | bool | real | str | arr | obj => simp [uint64?]

theorem int32?_eq_some_iff {value : Json} {n : Int32} :
    value.int32? = some n ↔ value = .int n.toInt := by
  cases value with
  | int z =>
    simp only [int32?, Option.ite_none_right_eq_some, Option.some.injEq, int.injEq]
    constructor
    · rintro ⟨⟨hlow, hhigh⟩, rfl⟩
      exact (Int32.toInt_ofInt_of_le hlow (Int.lt_add_one_of_le hhigh)).symm
    · rintro rfl
      exact ⟨⟨n.minValue_le_toInt, n.toInt_le⟩, Int32.ofInt_toInt n⟩
  | null | bool | real | str | arr | obj => simp [int32?]

/-- A value with no values in it. -/
def IsScalar : Json → Prop
  | .arr _ | .obj _ => False
  | _ => True

@[simp] theorem isScalar_bool (b : Bool) : (Json.bool b).IsScalar := trivial

@[simp] theorem isScalar_int (n : Int) : (Json.int n).IsScalar := trivial

@[simp] theorem isScalar_str (s : String) : (Json.str s).IsScalar := trivial

/-! ## Values that are alike -/

/-- The same value, the order of the fields of objects aside. -/
inductive Alike : Json → Json → Prop
  | refl (value : Json) : Alike value value
  | arr {items others : List Json} (h : List.Forall₂ Alike items others) :
    Alike (.arr items) (.arr others)
  | obj {fields others : List (String × Json)}
    (h : ∀ name, Option.Rel Alike (fields.lookup name) (others.lookup name)) :
    Alike (.obj fields) (.obj others)

@[simp] theorem alike_iff_of_isScalar {value other : Json} (h : other.IsScalar) :
    Alike value other ↔ value = other := by
  constructor
  · intro halike
    cases halike with
    | refl => rfl
    | arr | obj => exact h.elim
  · rintro rfl
    exact .refl _

@[simp] theorem relAlike_some_iff_of_isScalar {found : Option Json} {other : Json}
    (h : other.IsScalar) : Option.Rel Alike found (some other) ↔ found = some other := by
  cases found with
  | none => simp
  | some value => simp [alike_iff_of_isScalar h]

theorem alike_arr_iff {value : Json} {others : List Json} :
    Alike value (.arr others) ↔ ∃ items, value = .arr items ∧ List.Forall₂ Alike items others := by
  constructor
  · intro h
    cases h with
    | refl => exact ⟨others, rfl, List.forall₂_same.mpr fun item _ => .refl item⟩
    | arr h => exact ⟨_, rfl, h⟩
  · rintro ⟨items, rfl, h⟩
    exact .arr h

theorem exists_obj_of_alike {value : Json} {others : List (String × Json)}
    (h : Alike value (.obj others)) : ∃ fields, value = .obj fields := by
  cases h with
  | refl | obj => exact ⟨_, rfl⟩

theorem Alike.lookup {fields others : List (String × Json)} (h : Alike (.obj fields) (.obj others))
    (name : String) : Option.Rel Alike (fields.lookup name) (others.lookup name) := by
  cases h with
  | refl =>
    cases fields.lookup name with
    | none => exact .none
    | some value => exact .some (.refl value)
  | obj h => exact h name

/-- **Objects are alike** if they are under all names that may occur in them. -/
theorem alike_obj_iff {fields others : List (String × Json)} (names : List String)
    (hfields : ∀ name ∉ names, fields.lookup name = none)
    (hothers : ∀ name ∉ names, others.lookup name = none) :
    Alike (.obj fields) (.obj others) ↔
      ∀ name ∈ names, Option.Rel Alike (fields.lookup name) (others.lookup name) := by
  constructor
  · exact fun h name _ => h.lookup name
  · refine fun h => .obj fun name => ?_
    by_cases hname : name ∈ names
    · exact h name hname
    · rw [hfields name hname, hothers name hname]
      exact .none

/-! ## Fields changed by their names -/

/-- The fields for which `change` has something, with their values changed by it. -/
def restate (change : String → Option (Json → Json)) (fields : List (String × Json)) :
    List (String × Json) :=
  fields.filterMap fun field => (change field.1).map fun f => (field.1, f field.2)

theorem lookup_restate (change : String → Option (Json → Json)) (name : String) :
    ∀ fields, (restate change fields).lookup name =
      (change name).bind fun f => (fields.lookup name).map f
  | [] => by simp [restate]
  | (other, value) :: fields => by
    have ih := lookup_restate change name fields
    unfold restate at ih ⊢
    by_cases hname : name = other
    · subst hname
      cases hchange : change name with
      | none => simpa [hchange] using ih
      | some f => simp [hchange]
    · have hne : (name == other) = false := by simpa using hname
      cases hchange : change other with
      | none => simpa [hchange, List.lookup_cons, hne] using ih
      | some f => simpa [hchange, List.lookup_cons, hne] using ih

theorem lookup_restate_eq_none {change : String → Option (Json → Json)} {name : String}
    (h : change name = none) (fields : List (String × Json)) :
    (restate change fields).lookup name = none := by
  rw [lookup_restate, h, Option.bind_none]

end CardContent.Json
