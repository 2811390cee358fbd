import CardContent.Effect.Parser

/-!
# Effect trees against a catalog

* `parts` lists an effect and everything in it, depth first.
* `WellFormed catalog e` says that every number in `e` is one of the catalog and no compound in it
  is without parts, and `Resolved catalog e` that its descriptions are those of the catalog, too.
* `firstOffence?` is what is wrong with the first part that is not well formed by itself.
* `redescribe` puts the descriptions of the catalog in place of those of the effect.

Results:
* `firstOffence?_eq_none_iff`: there is no offence exactly if the effect is well formed.
* `redescribe_eq_self_iff`: on a well-formed effect, nothing is changed by `redescribe` exactly if
  the descriptions are those of the catalog.
* `resolved_simple_iff`, `resolved_compound_iff`: what it is to be resolved, node by node.
-/

set_option autoImplicit false

namespace CardContent.Effect

variable {catalog : Catalog}

/-! ## Parts -/

mutual

/-- The effect itself and all effects in it, depth first. -/
def parts : Effect → List Effect
  | .simple leaf => [.simple leaf]
  | .compound combinator children optional =>
    .compound combinator children optional :: partsOf children

/-- The parts of several effects, one effect after the other. -/
def partsOf : List Effect → List Effect
  | [] => []
  | e :: es => e.parts ++ partsOf es

end

mutual

theorem simple_mem_parts {leaf : Leaf} : ∀ {e : Effect}, simple leaf ∈ e.parts ↔ leaf ∈ e.leaves
  | .simple leaf' => by simp [parts, leaves]
  | .compound combinator children optional => by
    rw [parts, leaves, List.mem_cons, simple_mem_partsOf]
    exact or_iff_right fun h => by cases h

theorem simple_mem_partsOf {leaf : Leaf} : ∀ {es : List Effect},
    simple leaf ∈ partsOf es ↔ leaf ∈ leavesOf es
  | [] => by simp [partsOf, leavesOf]
  | e :: es => by
    rw [partsOf, leavesOf, List.mem_append, List.mem_append, simple_mem_parts,
      simple_mem_partsOf]

end

theorem partsOf_eq_flatMap : ∀ es : List Effect, partsOf es = es.flatMap parts
  | [] => rfl
  | e :: es => by rw [partsOf, partsOf_eq_flatMap es, List.flatMap_cons]

/-! ## Well-formed and resolved effects -/

/-- Every number is one of the catalog, and no compound is without parts. -/
structure WellFormed (catalog : Catalog) (e : Effect) : Prop where
  leaves : ∀ leaf ∈ e.leaves, 1 ≤ leaf.index.toNat ∧ leaf.index.toNat < catalog.size
  compounds : ∀ part ∈ e.parts, part.children? ≠ some []

/-- The effect is well formed, and every leaf has the description that its number has. -/
structure Resolved (catalog : Catalog) (e : Effect) : Prop extends WellFormed catalog e where
  described : ∀ leaf ∈ e.leaves, catalog.get? leaf.index = some leaf.description

theorem resolved_simple_iff {leaf : Leaf} :
    Resolved catalog (.simple leaf) ↔ catalog.get? leaf.index = some leaf.description := by
  constructor
  · intro h
    exact h.described leaf (by simp [leaves])
  · intro h
    obtain ⟨hlow, hhigh, -⟩ := Catalog.get?_eq_some_iff.mp h
    refine ⟨⟨?_, ?_⟩, ?_⟩
    · intro leaf' hmem
      obtain rfl : leaf' = leaf := by simpa [leaves] using hmem
      exact ⟨hlow, hhigh⟩
    · intro part hmem
      obtain rfl : part = .simple leaf := by simpa [parts] using hmem
      simp [children?]
    · intro leaf' hmem
      obtain rfl : leaf' = leaf := by simpa [leaves] using hmem
      exact h

/-- **A compound is resolved** exactly if it has parts and each of them is. -/
theorem resolved_compound_iff {combinator : Combinator} {children : List Effect}
    {optional : Bool} :
    Resolved catalog (.compound combinator children optional) ↔
      children ≠ [] ∧ ∀ e ∈ children, Resolved catalog e := by
  have hleaf : ∀ leaf, leaf ∈ (compound combinator children optional).leaves ↔
      ∃ e ∈ children, leaf ∈ e.leaves := by
    intro leaf
    rw [leaves, leavesOf_eq_flatMap, List.mem_flatMap]
  have hpart : ∀ part, part ∈ (compound combinator children optional).parts ↔
      part = compound combinator children optional ∨ ∃ e ∈ children, part ∈ e.parts := by
    intro part
    rw [parts, List.mem_cons, partsOf_eq_flatMap, List.mem_flatMap]
  constructor
  · intro h
    refine ⟨fun hnil => ?_, fun e he => ⟨⟨?_, ?_⟩, ?_⟩⟩
    · exact h.compounds _ ((hpart _).mpr (Or.inl rfl)) (by rw [children?, hnil])
    · exact fun leaf hl => h.leaves leaf ((hleaf leaf).mpr ⟨e, he, hl⟩)
    · exact fun part hp => h.compounds part ((hpart part).mpr (Or.inr ⟨e, he, hp⟩))
    · exact fun leaf hl => h.described leaf ((hleaf leaf).mpr ⟨e, he, hl⟩)
  · rintro ⟨hne, h⟩
    refine ⟨⟨fun leaf hl => ?_, fun part hp => ?_⟩, fun leaf hl => ?_⟩
    · obtain ⟨e, he, hl⟩ := (hleaf leaf).mp hl
      exact (h e he).leaves leaf hl
    · rcases (hpart part).mp hp with rfl | ⟨e, he, hp⟩
      · exact fun hnil => hne (Option.some.inj hnil)
      · exact (h e he).compounds part hp
    · obtain ⟨e, he, hl⟩ := (hleaf leaf).mp hl
      exact (h e he).described leaf hl

/-! ## The first offence -/

/-- What is wrong with an effect by itself, its parts aside: the fault that its token has. -/
def offence? (catalog : Catalog) : Effect → Option TokenError
  | .simple leaf =>
    if 1 ≤ leaf.index.toNat ∧ leaf.index.toNat < catalog.size then none
    else some (.badIndex (simple leaf).token (Numeral.natText leaf.index.toNat))
  | .compound _ [] _ => some (.malformed "")
  | .compound _ (_ :: _) _ => none

/-- What is wrong with the first part, depth first, that has something wrong with it. -/
def firstOffence? (catalog : Catalog) (e : Effect) : Option TokenError :=
  e.parts.findSome? (offence? catalog)

/-- **There is no offence** exactly if the effect is well formed. -/
theorem firstOffence?_eq_none_iff {e : Effect} :
    e.firstOffence? catalog = none ↔ WellFormed catalog e := by
  unfold firstOffence?
  rw [List.findSome?_eq_none_iff]
  constructor
  · intro h
    refine ⟨fun leaf hl => ?_, fun part hp hnil => ?_⟩
    · have := h _ (simple_mem_parts.mpr hl)
      by_cases hc : 1 ≤ leaf.index.toNat ∧ leaf.index.toNat < catalog.size
      · exact hc
      · rw [offence?, if_neg hc] at this
        cases this
    · have := h part hp
      cases part with
      | simple leaf => cases hnil
      | compound combinator children optional =>
        cases Option.some.inj hnil
        cases this
  · intro h part hp
    cases part with
    | simple leaf => rw [offence?, if_pos (h.leaves leaf (simple_mem_parts.mp hp))]
    | compound combinator children optional =>
      cases children with
      | nil => exact absurd rfl (h.compounds _ hp)
      | cons e es => rfl

/-! ## The descriptions of the catalog -/

mutual

/-- The effect with the description of the catalog for each of its numbers. -/
def redescribe (catalog : Catalog) : Effect → Effect
  | .simple leaf =>
    .simple { leaf with description := (catalog.get? leaf.index).getD leaf.description }
  | .compound combinator children optional =>
    .compound combinator (redescribeAll catalog children) optional

/-- Several effects, each with the descriptions of the catalog. -/
def redescribeAll (catalog : Catalog) : List Effect → List Effect
  | [] => []
  | e :: es => e.redescribe catalog :: redescribeAll catalog es

end

mutual

theorem redescribe_eq_self : ∀ {e : Effect}, e.redescribe catalog = e ↔
    ∀ leaf ∈ e.leaves, (catalog.get? leaf.index).getD leaf.description = leaf.description
  | .simple leaf => by
    rw [redescribe, leaves, List.forall_mem_singleton]
    constructor
    · intro h
      injection h with h
      exact congrArg Leaf.description h
    · intro h
      rw [h]
  | .compound combinator children optional => by
    rw [redescribe, leaves, ← redescribeAll_eq_self]
    constructor
    · intro h
      injection h
    · intro h
      rw [h]

theorem redescribeAll_eq_self : ∀ {es : List Effect}, redescribeAll catalog es = es ↔
    ∀ leaf ∈ leavesOf es, (catalog.get? leaf.index).getD leaf.description = leaf.description
  | [] => by simp [redescribeAll, leavesOf]
  | e :: es => by
    rw [redescribeAll, leavesOf, List.forall_mem_append, List.cons_eq_cons, redescribe_eq_self,
      redescribeAll_eq_self]

end

/-- **On a well-formed effect `redescribe` changes nothing** exactly if the descriptions are those
of the catalog. -/
theorem redescribe_eq_self_iff {e : Effect} (h : WellFormed catalog e) :
    e.redescribe catalog = e ↔
      ∀ leaf ∈ e.leaves, catalog.get? leaf.index = some leaf.description := by
  rw [redescribe_eq_self]
  refine forall_congr' fun leaf => forall_congr' fun hl => ?_
  cases hd : catalog.get? leaf.index with
  | none => exact absurd (h.leaves leaf hl) (Catalog.get?_eq_none_iff.mp hd)
  | some description => rw [Option.getD_some, Option.some.injEq]

end CardContent.Effect
