/-!
# Effect trees

An effect is a leaf, which refers to a numbered description and may carry a parameter, or a
combination of effects. Either may be optional: the player may decline it.
-/

set_option autoImplicit false

namespace CardContent

/-- How the parts of a compound effect go together (`CompoundKind`). -/
inductive Combinator where
  /-- Every part happens. -/
  | all
  /-- Exactly one part is chosen. -/
  | one
  deriving DecidableEq, Repr

namespace Combinator

/-- The word that stands for a combinator in effect tokens and displays
(`CompoundKind::keyword`). -/
def keyword : Combinator → String
  | .all => "AND"
  | .one => "OR"

/-- The combinator that a word stands for, in exactly this spelling
(`CompoundKind::from_keyword`). -/
def ofKeyword? (word : String) : Option Combinator :=
  if word = "AND" then some .all else if word = "OR" then some .one else none

theorem ofKeyword?_eq_some_iff {word : String} {c : Combinator} :
    ofKeyword? word = some c ↔ word = c.keyword := by
  unfold ofKeyword?
  constructor
  · intro h
    split at h
    · next hw => cases h; exact hw
    · split at h
      · next hw => cases h; exact hw
      · cases h
  · rintro rfl
    cases c <;> decide

end Combinator

/-- One effect by its number in the list of descriptions (`SimpleEffect`). -/
structure Leaf where
  /-- The number of the description, counted from 1. -/
  index : UInt64
  description : String
  /-- The number that goes with the description, if the card gives one. -/
  param : Option Int32
  optional : Bool
  deriving DecidableEq, Repr

/-- A leaf or a combination of effects (`Effect`). -/
inductive Effect where
  | simple (leaf : Leaf)
  | compound (combinator : Combinator) (children : List Effect) (optional : Bool)
  deriving Repr

namespace Effect

instance : Inhabited Effect := ⟨.compound .all [] false⟩

/-- Whether the player may decline the effect as a whole (`Effect::is_optional`). -/
def isOptional : Effect → Bool
  | .simple leaf => leaf.optional
  | .compound _ _ optional => optional

/-- The effect in which all of `children` happen (`CompoundEffect::all_of`). -/
def allOf (children : List Effect) : Effect :=
  .compound .all children false

/-- The leaf that an effect consists of (`Effect::as_simple`). -/
def leaf? : Effect → Option Leaf
  | .simple leaf => some leaf
  | .compound .. => none

/-- The parts of a compound effect (`Effect::as_compound`). -/
def children? : Effect → Option (List Effect)
  | .simple _ => none
  | .compound _ children _ => some children

mutual

/-- The leaves of an effect, from left to right. -/
def leaves : Effect → List Leaf
  | .simple leaf => [leaf]
  | .compound _ children _ => leavesOf children

/-- The leaves of several effects, one effect after the other. -/
def leavesOf : List Effect → List Leaf
  | [] => []
  | e :: es => e.leaves ++ leavesOf es

end

/-- The description numbers of the leaves, from left to right (`Effect::indices`). -/
def indices (e : Effect) : List UInt64 :=
  e.leaves.map (·.index)

theorem leavesOf_eq_flatMap : ∀ es : List Effect, leavesOf es = es.flatMap leaves
  | [] => rfl
  | e :: es => by rw [leavesOf, leavesOf_eq_flatMap es, List.flatMap_cons]

end Effect

end CardContent
