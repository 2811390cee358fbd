import CardContent.Effect.Json
import CardContent.Proofs.Json
import Mathlib

/-!
# Effects read back

An effect can be read of more than is written of it: fields may stand in any order, there may be
unknown ones, a `param` that is null may be missing, and the tag of an effect inside another value
may be the number of its variant. Nothing else is read of objects.

* `variant? fields` is the number of the variant that the `type` of an object tells.
* `spelled tag` is the tag with the name of the variant for its number.
* `tidy retag value` drops the unknown fields of the effect and of all effects in it, puts in a
  missing `param`, and changes the tags by `retag`.
* `IsPlain value` says that the effect and all effects in it are objects, and the combinators of
  compounds are strings.

Results:
* `Leaf.ofFields?_eq_some_iff`, `ofJsonAt?_obj_of_compound`: the fields of which a leaf and a
  compound are read.
* `plain_and_read_iff`: an effect is read of a plain value exactly if tidying makes of the value
  what is written of the effect.
* `tidy_toJson`: what is written of an effect is tidy.
-/

set_option autoImplicit false

namespace CardContent

/-! ## Tidying -/

namespace Leaf

/-- What becomes of a field of a leaf by its name; nothing of one that is unknown. -/
def fieldChange (retag : Json → Json) : String → Option (Json → Json)
  | "type" => some retag
  | "index" | "description" | "param" | "optional" => some id
  | _ => none

/-- The fields with a null put in for a missing `param`. -/
def withParam (fields : List (String × Json)) : List (String × Json) :=
  if (fields.lookup "param").isSome then fields else fields ++ [("param", .null)]

/-- The known fields of a leaf, `param` among them. -/
def tidyFields (retag : Json → Json) (fields : List (String × Json)) : List (String × Json) :=
  withParam (Json.restate (fieldChange retag) fields)

end Leaf

namespace Effect

/-- The number of the variant that the tag of an object inside another value stands for. -/
def variant? (fields : List (String × Json)) : Option Nat :=
  (fields.lookup "type").bind (Json.tag? tags true)

/-- A tag with the name of the variant for its number. -/
def spelled (tag : Json) : Json :=
  match Json.tag? tags true tag with
  | some 0 => .str "simple"
  | some 1 => .str "compound"
  | _ => tag

mutual

/-- An effect without unknown fields, with no `param` missing, and with its tags changed by
`retag`. -/
def tidy (retag : Json → Json) : Json → Json
  | .obj fields =>
    match variant? fields with
    | some 0 => .obj (Leaf.tidyFields retag fields)
    | some 1 => .obj (tidyFields retag fields)
    | _ => .obj fields
  | value => value

/-- The known fields of a compound. -/
def tidyFields (retag : Json → Json) : List (String × Json) → List (String × Json)
  | [] => []
  | (name, value) :: rest =>
    match name with
    | "type" => ("type", retag value) :: tidyFields retag rest
    | "kind" => ("kind", value) :: tidyFields retag rest
    | "children" => ("children", tidyChildren retag value) :: tidyFields retag rest
    | "optional" => ("optional", value) :: tidyFields retag rest
    | _ => tidyFields retag rest

/-- The parts of a compound. -/
def tidyChildren (retag : Json → Json) : Json → Json
  | .arr items => .arr (tidyAll retag items)
  | value => value

/-- Several effects. -/
def tidyAll (retag : Json → Json) : List Json → List Json
  | [] => []
  | item :: rest => tidy retag item :: tidyAll retag rest

end

/-- What becomes of a field of a compound by its name; nothing of one that is unknown. -/
def fieldChange (retag : Json → Json) : String → Option (Json → Json)
  | "type" => some retag
  | "children" => some (tidyChildren retag)
  | "kind" | "optional" => some id
  | _ => none

theorem tidyFields_eq_restate (retag : Json → Json) : ∀ fields : List (String × Json),
    tidyFields retag fields = Json.restate (fieldChange retag) fields
  | [] => by simp [tidyFields, Json.restate]
  | (name, value) :: rest => by
    have ih := tidyFields_eq_restate retag rest
    unfold Json.restate at ih ⊢
    rw [tidyFields.eq_def]
    simp only
    split <;> simp_all [fieldChange]

end Effect

/-! ## Leaves -/

namespace Leaf

variable {fields : List (String × Json)} {leaf : Leaf}

/-- The names of the fields of a leaf. -/
def fieldNames : List String := ["type", "index", "description", "param", "optional"]

theorem paramOfJson?_eq_some_iff {value : Json} {param : Option Int32} :
    paramOfJson? value = some param ↔
      value = (param.map fun p => Json.int p.toInt).getD .null := by
  cases param with
  | none => cases value <;> simp [paramOfJson?]
  | some p =>
    cases value with
    | null => simp [paramOfJson?]
    | bool | int | real | str | arr | obj =>
      simp [paramOfJson?, Json.int32?_eq_some_iff]

/-- **The fields of which a leaf is read** are those written of it, `param` perhaps missing. -/
theorem ofFields?_eq_some_iff :
    ofFields? fields = some leaf ↔
      fields.lookup "index" = some (.int leaf.index.toNat) ∧
      fields.lookup "description" = some (.str leaf.description) ∧
      (fields.lookup "param").getD .null =
        (leaf.param.map fun p => Json.int p.toInt).getD .null ∧
      fields.lookup "optional" = some (.bool leaf.optional) := by
  obtain ⟨index, description, param, optional⟩ := leaf
  simp only [ofFields?, ofValues?, Option.bind_eq_bind, Option.bind_eq_some_iff, Option.pure_def,
    Option.some.injEq, Leaf.mk.injEq, Json.uint64?_eq_some_iff, Json.text?_eq_some_iff,
    paramOfJson?_eq_some_iff, Json.bool?_eq_some_iff]
  constructor
  · rintro ⟨_, hindex, _, hdescription, _, hoptional, _, rfl, _, rfl, _, hparam, _, rfl, rfl, rfl,
      rfl, rfl⟩
    exact ⟨hindex, hdescription, hparam, hoptional⟩
  · rintro ⟨hindex, hdescription, hparam, hoptional⟩
    exact ⟨_, hindex, _, hdescription, _, hoptional, _, rfl, _, rfl, _, hparam, _, rfl, rfl, rfl,
      rfl, rfl⟩

theorem lookup_withParam (fields : List (String × Json)) (name : String) :
    (withParam fields).lookup name =
      if name = "param" then some ((fields.lookup "param").getD .null) else fields.lookup name := by
  unfold withParam
  cases hparam : fields.lookup "param" with
  | none =>
    by_cases hname : name = "param"
    · subst hname
      simp [List.lookup_append, hparam]
    · have hne : (name == "param") = false := by simpa using hname
      simp [List.lookup_append, List.lookup_cons, hne, hname]
  | some value =>
    by_cases hname : name = "param"
    · subst hname
      simp [hparam]
    · simp [hname]

theorem fieldChange_eq_none {retag : Json → Json} {name : String} (h : name ∉ fieldNames) :
    fieldChange retag name = none := by
  unfold fieldChange
  split <;> simp_all [fieldNames]

theorem lookup_tidyFields_eq_none {retag : Json → Json} {name : String} (h : name ∉ fieldNames) :
    (tidyFields retag fields).lookup name = none := by
  have hparam : name ≠ "param" := fun hname => h (by simp [hname, fieldNames])
  rw [tidyFields, lookup_withParam, if_neg hparam,
    Json.lookup_restate_eq_none (fieldChange_eq_none h)]

/-- **A tidied leaf** is what is written of a leaf exactly if that leaf is read of its fields. -/
theorem alike_tidyFields_iff {retag : Json → Json} :
    Json.Alike (.obj (tidyFields retag fields)) (Effect.simple leaf).toJson ↔
      (fields.lookup "type").map retag = some (.str "simple") ∧ ofFields? fields = some leaf := by
  have hothers : ∀ name ∉ fieldNames,
      (("type", Json.str "simple") :: leaf.toFields).lookup name = none := by
    intro name hname
    simp only [fieldNames, List.mem_cons, List.not_mem_nil, or_false, not_or] at hname
    simp [toFields, List.lookup_cons, beq_false_of_ne, hname]
  have hparam : (leaf.param.map fun p => Json.int p.toInt).getD .null |>.IsScalar := by
    cases leaf.param <;> trivial
  rw [Effect.toJson, Json.alike_obj_iff fieldNames (fun _ => lookup_tidyFields_eq_none) hothers,
    ofFields?_eq_some_iff]
  simp [fieldNames, tidyFields, lookup_withParam, Json.lookup_restate, fieldChange, toFields,
    List.lookup_cons, hparam]

end Leaf

/-! ## Variants -/

namespace Effect

variable {fields : List (String × Json)} {e : Effect}

/-- The number of the variant of an effect. -/
def variant : Effect → Nat
  | .simple _ => 0
  | .compound .. => 1

/-- The name of the variant of an effect. -/
def tag (e : Effect) : Json :=
  .str (tags.getD e.variant "")

/-- **A spelled tag** is the name of a variant exactly if the tag stands for the variant. -/
theorem spelled_eq_tag_iff {value : Json} :
    spelled value = e.tag ↔ Json.tag? tags true value = some e.variant := by
  unfold spelled
  split
  · rename_i hvalue
    rw [hvalue]
    cases e <;> simp [tag, tags, variant]
  · rename_i hvalue
    rw [hvalue]
    cases e <;> simp [tag, tags, variant]
  · rename_i hsimple hcompound
    constructor
    · rintro rfl
      cases e <;> rfl
    · intro hvalue
      cases e with
      | simple => exact absurd hvalue hsimple
      | compound => exact absurd hvalue hcompound

theorem lookup_type_toJson (e : Effect) :
    ∃ others, e.toJson = .obj others ∧ others.lookup "type" = some e.tag := by
  cases e with
  | simple leaf => exact ⟨_, rfl, rfl⟩
  | compound combinator children optional => exact ⟨_, by rw [toJson], rfl⟩

theorem map_spelled_eq_iff :
    (fields.lookup "type").map spelled = some e.tag ↔ variant? fields = some e.variant := by
  rw [variant?, Option.map_eq_some_iff, Option.bind_eq_some_iff]
  simp only [spelled_eq_tag_iff]

/-! ## Reading -/

theorem childrenOfFields?_eq : ∀ fields : List (String × Json),
    childrenOfFields? fields = (fields.lookup "children").bind childrenOfJson?
  | [] => rfl
  | (name, value) :: rest => by
    rw [childrenOfFields?, List.lookup_cons, childrenOfFields?_eq rest]
    cases "children" == name <;> rfl

theorem childrenOfJson?_eq_some_iff {value : Json} {children : List Effect} :
    childrenOfJson? value = some children ↔
      ∃ items, value = .arr items ∧ ofJsons? items = some children := by
  cases value <;> simp [childrenOfJson?]

/-- A leaf is read of the fields of a leaf. -/
theorem ofJsonAt?_obj_of_leaf (h : variant? fields = some 0) :
    ofJsonAt? true (.obj fields) = (Leaf.ofFields? fields).map .simple := by
  rw [ofJsonAt?, show (fields.lookup "type").bind (Json.tag? tags true) = some 0 from h]
  rfl

/-- **A compound is read** of a combinator, an array of effects and a truth value. -/
theorem ofJsonAt?_obj_of_compound (h : variant? fields = some 1) :
    ofJsonAt? true (.obj fields) = some e ↔
      ∃ combinator children optional, e = .compound combinator children optional ∧
        (fields.lookup "kind").bind Combinator.ofJson? = some combinator ∧
        (∃ items, fields.lookup "children" = some (.arr items) ∧
          ofJsons? items = some children) ∧
        fields.lookup "optional" = some (.bool optional) := by
  rw [ofJsonAt?, show (fields.lookup "type").bind (Json.tag? tags true) = some 1 from h]
  simp only [childrenOfFields?_eq, Option.bind_eq_bind, Option.bind_eq_some_iff, Option.pure_def,
    Option.some.injEq, Json.bool?_eq_some_iff, childrenOfJson?_eq_some_iff]
  constructor
  · rintro ⟨kind, hkind, combinator, hcombinator, children, ⟨value, hvalue, items, rfl, hitems⟩,
      _, hoptional, optional, rfl, rfl⟩
    exact ⟨combinator, children, optional, rfl, ⟨kind, hkind, hcombinator⟩,
      ⟨items, hvalue, hitems⟩, hoptional⟩
  · rintro ⟨combinator, children, optional, rfl, ⟨kind, hkind, hcombinator⟩,
      ⟨items, hvalue, hitems⟩, hoptional⟩
    exact ⟨kind, hkind, combinator, hcombinator, children, ⟨_, hvalue, items, rfl, hitems⟩,
      _, hoptional, optional, rfl, rfl⟩

/-- What is read of an object is of the variant that its tag tells. -/
theorem variant?_of_read (h : ofJsonAt? true (.obj fields) = some e) :
    variant? fields = some e.variant := by
  rw [ofJsonAt?] at h
  split at h
  · rename_i htag
    obtain ⟨leaf, -, rfl⟩ := Option.map_eq_some_iff.mp h
    exact htag
  · rename_i htag
    obtain ⟨combinator, children, optional, rfl, -⟩ :=
      (ofJsonAt?_obj_of_compound htag).mp (by rw [ofJsonAt?, htag]; exact h)
    exact htag
  · cases h

/-! ## Reading and tidying -/

/-- The effect and all effects in it are objects, and the combinators of compounds are strings. -/
inductive IsPlain : Json → Prop
  | obj {fields : List (String × Json)}
    (combinator : variant? fields = some 1 →
      ∀ kind, fields.lookup "kind" = some kind → ∃ name, kind = .str name)
    (children : variant? fields = some 1 →
      ∀ items, fields.lookup "children" = some (.arr items) → ∀ item ∈ items, IsPlain item) :
    IsPlain (.obj fields)

/-- The names of the fields of a compound. -/
def fieldNames : List String := ["type", "kind", "children", "optional"]

variable {retag : Json → Json}

theorem fieldChange_eq_none {name : String} (h : name ∉ fieldNames) :
    fieldChange retag name = none := by
  unfold fieldChange
  split <;> simp_all [fieldNames]

theorem lookup_tidyFields (name : String) :
    (tidyFields retag fields).lookup name =
      (fieldChange retag name).bind fun f => (fields.lookup name).map f := by
  rw [tidyFields_eq_restate, Json.lookup_restate]

theorem tidy_obj_of_leaf (h : variant? fields = some 0) :
    tidy retag (.obj fields) = .obj (Leaf.tidyFields retag fields) := by
  simp only [tidy, h]

theorem tidy_obj_of_compound (h : variant? fields = some 1) :
    tidy retag (.obj fields) = .obj (tidyFields retag fields) := by
  simp only [tidy, h]

/-- Whatever the tag stands for, a tidied object has the spelled tag. -/
theorem exists_lookup_type_tidy (fields : List (String × Json)) :
    ∃ others, tidy spelled (.obj fields) = .obj others ∧
      others.lookup "type" = (fields.lookup "type").map spelled := by
  unfold tidy
  split
  · refine ⟨_, rfl, ?_⟩
    rw [Leaf.tidyFields, Leaf.lookup_withParam, if_neg (by decide), Json.lookup_restate]
    rfl
  · refine ⟨_, rfl, ?_⟩
    rw [lookup_tidyFields]
    rfl
  · rename_i hsimple hcompound
    refine ⟨_, rfl, ?_⟩
    cases htype : fields.lookup "type" with
    | none => rfl
    | some value =>
      rw [variant?, htype, Option.bind_some] at hsimple hcompound
      rw [Option.map_some, spelled]
      split
      · exact absurd ‹_› hsimple
      · exact absurd ‹_› hcompound
      · rfl

/-- What is tidied to something written is of the variant of what was written. -/
theorem variant?_of_tidy (h : Json.Alike (tidy spelled (.obj fields)) e.toJson) :
    variant? fields = some e.variant := by
  obtain ⟨others, hothers, htype⟩ := exists_lookup_type_tidy fields
  obtain ⟨written, hwritten, htag⟩ := lookup_type_toJson e
  rw [hothers, hwritten] at h
  have hrel := h.lookup "type"
  rw [htype, htag, tag, Json.relAlike_some_iff_of_isScalar (Json.isScalar_str _)] at hrel
  exact map_spelled_eq_iff.mp hrel

theorem exists_obj_of_tidy {value : Json} (h : Json.Alike (tidy retag value) e.toJson) :
    ∃ fields, value = .obj fields := by
  obtain ⟨written, hwritten, -⟩ := lookup_type_toJson e
  rw [hwritten] at h
  obtain ⟨others, hothers⟩ := Json.exists_obj_of_alike h
  cases value with
  | obj fields => exact ⟨fields, rfl⟩
  | null | bool | int | real | str | arr => simp [tidy] at hothers

/-- A leaf is read of the fields that are tidied to it. -/
theorem plain_and_read_leaf_iff (h : variant? fields = some 0) {leaf : Leaf} :
    (IsPlain (.obj fields) ∧ ofJsonAt? true (.obj fields) = some (.simple leaf)) ↔
      Json.Alike (tidy spelled (.obj fields)) (simple leaf).toJson := by
  have hplain : IsPlain (.obj fields) := .obj (by simp [h]) (by simp [h])
  have htype : (fields.lookup "type").map spelled = some (simple leaf).tag :=
    map_spelled_eq_iff.mpr h
  rw [tidy_obj_of_leaf h, Leaf.alike_tidyFields_iff, ofJsonAt?_obj_of_leaf h]
  simp [hplain, show (fields.lookup "type").map spelled = some (.str "simple") from htype]

theorem relAlike_children_iff {found : Option Json} {others : List Json} :
    Option.Rel Json.Alike (found.map (tidyChildren retag)) (some (.arr others)) ↔
      ∃ items, found = some (.arr items) ∧
        List.Forall₂ Json.Alike (tidyAll retag items) others := by
  cases found with
  | none => simp
  | some value =>
    cases value <;> simp [tidyChildren, Json.alike_arr_iff]

/-- A tidied compound is what is written of a compound exactly if combinator and truth value are
the same and the parts are tidied to what is written of the parts. -/
theorem alike_tidyFields_iff {combinator : Combinator} {children : List Effect} {optional : Bool} :
    Json.Alike (.obj (tidyFields retag fields)) (compound combinator children optional).toJson ↔
      (fields.lookup "type").map retag = some (.str "compound") ∧
      fields.lookup "kind" = some (.str combinator.keyword) ∧
      (∃ items, fields.lookup "children" = some (.arr items) ∧
        List.Forall₂ Json.Alike (tidyAll retag items) (toJsons children)) ∧
      fields.lookup "optional" = some (.bool optional) := by
  have hfields : ∀ name ∉ fieldNames, (tidyFields retag fields).lookup name = none := by
    intro name hname
    rw [tidyFields_eq_restate, Json.lookup_restate_eq_none (fieldChange_eq_none hname)]
  rw [toJson, Json.alike_obj_iff fieldNames hfields]
  · simp [fieldNames, lookup_tidyFields, fieldChange, List.lookup_cons, relAlike_children_iff]
  · intro name hname
    simp only [fieldNames, List.mem_cons, List.not_mem_nil, or_false, not_or] at hname
    simp [List.lookup_cons, beq_false_of_ne, hname]

/-- A compound is read of the fields that are tidied to it, if that holds of its parts. -/
theorem plain_and_read_compound_iff (h : variant? fields = some 1) {combinator : Combinator}
    {children : List Effect} {optional : Bool}
    (hchildren : ∀ items, ((∀ item ∈ items, IsPlain item) ∧ ofJsons? items = some children) ↔
      List.Forall₂ Json.Alike (tidyAll spelled items) (toJsons children)) :
    (IsPlain (.obj fields) ∧
        ofJsonAt? true (.obj fields) = some (.compound combinator children optional)) ↔
      Json.Alike (tidy spelled (.obj fields)) (compound combinator children optional).toJson := by
  have htype : (fields.lookup "type").map spelled = some (.str "compound") :=
    (map_spelled_eq_iff.mpr h : _ = some (compound combinator children optional).tag)
  rw [tidy_obj_of_compound h, alike_tidyFields_iff, ofJsonAt?_obj_of_compound h]
  constructor
  · rintro ⟨⟨hplain, hparts⟩, _, _, _, hsame, hkind, ⟨items, hitems, hread⟩, hoptional⟩
    cases hsame
    obtain ⟨kind, hlookup, hcombinator⟩ := Option.bind_eq_some_iff.mp hkind
    obtain ⟨name, rfl⟩ := hplain h kind hlookup
    obtain rfl := Combinator.ofKeyword?_eq_some_iff.mp hcombinator
    exact ⟨htype, hlookup, ⟨items, hitems, (hchildren items).mp ⟨hparts h items hitems, hread⟩⟩,
      hoptional⟩
  · rintro ⟨-, hkind, ⟨items, hitems, halike⟩, hoptional⟩
    obtain ⟨hplain, hread⟩ := (hchildren items).mpr halike
    refine ⟨.obj (fun _ kind hlookup => ?_) fun _ others hlookup => ?_, _, _, _, rfl, ?_,
      ⟨items, hitems, hread⟩, hoptional⟩
    · exact ⟨_, Option.some.inj (hlookup.symm.trans hkind)⟩
    · obtain rfl : others = items :=
        Json.arr.inj (Option.some.inj (hlookup.symm.trans hitems))
      exact hplain
    · rw [hkind]
      exact Combinator.ofKeyword?_eq_some_iff.mpr rfl

/-- Only objects of the variant of an effect are read as the effect or tidied to it. -/
theorem plain_and_read_iff_of_variant {value : Json}
    (h : ∀ fields, value = .obj fields → variant? fields = some e.variant →
      ((IsPlain value ∧ ofJsonAt? true value = some e) ↔
        Json.Alike (tidy spelled value) e.toJson)) :
    (IsPlain value ∧ ofJsonAt? true value = some e) ↔ Json.Alike (tidy spelled value) e.toJson := by
  constructor
  · rintro ⟨hplain, hread⟩
    obtain ⟨hcombinator, hparts⟩ := hplain
    exact (h _ rfl (variant?_of_read hread)).mp ⟨.obj hcombinator hparts, hread⟩
  · intro halike
    obtain ⟨fields, rfl⟩ := exists_obj_of_tidy halike
    exact (h _ rfl (variant?_of_tidy halike)).mpr halike

mutual

/-- **An effect is read of a plain value** exactly if tidying makes of the value what is written of
the effect. -/
theorem plain_and_read_iff : ∀ (e : Effect) (value : Json),
    (IsPlain value ∧ ofJsonAt? true value = some e) ↔ Json.Alike (tidy spelled value) e.toJson
  | .simple leaf, value => by
    refine plain_and_read_iff_of_variant fun fields hvalue hvariant => ?_
    subst hvalue
    exact plain_and_read_leaf_iff hvariant
  | .compound combinator children optional, value => by
    refine plain_and_read_iff_of_variant fun fields hvalue hvariant => ?_
    subst hvalue
    exact plain_and_read_compound_iff hvariant (plain_and_read_all_iff children)

theorem plain_and_read_all_iff : ∀ (children : List Effect) (items : List Json),
    ((∀ item ∈ items, IsPlain item) ∧ ofJsons? items = some children) ↔
      List.Forall₂ Json.Alike (tidyAll spelled items) (toJsons children)
  | [], [] => by simp [ofJsons?, tidyAll, toJsons]
  | [], item :: items => by simp [ofJsons?, tidyAll, toJsons, Option.bind_eq_some_iff]
  | e :: children, [] => by simp [ofJsons?, tidyAll, toJsons]
  | e :: children, item :: items => by
    rw [tidyAll, toJsons, List.forall₂_cons, ← plain_and_read_iff e item,
      ← plain_and_read_all_iff children items, List.forall_mem_cons, ofJsons?]
    simp only [Option.bind_eq_bind, Option.bind_eq_some_iff, Option.pure_def, Option.some.injEq,
      List.cons.injEq]
    constructor
    · rintro ⟨⟨hplain, hplains⟩, _, hread, _, hreads, rfl, rfl⟩
      exact ⟨⟨hplain, hread⟩, hplains, hreads⟩
    · rintro ⟨⟨hplain, hread⟩, hplains, hreads⟩
      exact ⟨⟨hplain, hplains⟩, _, hread, _, hreads, rfl, rfl⟩

end

/-! ## Writing -/

theorem tidyAll_toJsons {es : List Effect} (h : ∀ e ∈ es, tidy spelled e.toJson = e.toJson) :
    tidyAll spelled (toJsons es) = toJsons es := by
  induction es with
  | nil => rfl
  | cons e es ih =>
    rw [List.forall_mem_cons] at h
    rw [toJsons, tidyAll, h.1, ih h.2]

/-- What is written of an effect is tidy. -/
theorem tidy_toJson (e : Effect) : tidy spelled e.toJson = e.toJson := by
  cases e with
  | simple leaf =>
    rw [toJson, tidy_obj_of_leaf rfl]
    rfl
  | compound combinator children optional =>
    have hchildren : tidyAll spelled (toJsons children) = toJsons children :=
      tidyAll_toJsons fun child hchild => tidy_toJson child
    rw [toJson, tidy_obj_of_compound rfl, tidyFields_eq_restate]
    simp [Json.restate, fieldChange, tidyChildren, hchildren]
    rfl
termination_by sizeOf e
decreasing_by
  have hlt := List.sizeOf_lt_of_mem hchild
  simp only [compound.sizeOf_spec]
  omega

end Effect

end CardContent
