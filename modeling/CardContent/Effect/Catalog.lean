import CardContent.Json.Basic

/-!
# The numbered effect descriptions

Cards refer to effects by the number of a line, counted from 1. Place 0 of the table is reserved: it
counts as a place of the catalog and holds an empty text that is never found, so that the numbers
are the places.
-/

set_option autoImplicit false

namespace CardContent

/-- Effect descriptions by place, behind the reserved place 0 (`EffectCatalog`). -/
structure Catalog where
  descriptions : Array String
  reserved : descriptions[0]? = some ""
  deriving DecidableEq, Repr

namespace Catalog

/-- The catalog of descriptions listed from number 1 on (`EffectCatalog::new`). -/
def ofList (descriptions : List String) : Catalog :=
  ⟨("" :: descriptions).toArray, rfl⟩

/-- The catalog without descriptions. -/
def empty : Catalog := ofList []

instance : Inhabited Catalog := ⟨empty⟩

/-- The number of places, with the reserved place 0 (`EffectCatalog::len`). -/
def size (c : Catalog) : Nat :=
  c.descriptions.size

/-- Whether there are no descriptions (`EffectCatalog::is_empty`). -/
def isEmpty (c : Catalog) : Bool :=
  c.size ≤ 1

/-- The description with a number (`EffectCatalog::get`). -/
def get? (c : Catalog) (index : UInt64) : Option String :=
  if index = 0 then none else c.descriptions[index.toNat]?

/-- Every number with its description, in order (`EffectCatalog::iter`). -/
def entries (c : Catalog) : List (Nat × String) :=
  (c.descriptions.toList.zipIdx.drop 1).map fun entry => (entry.2, entry.1)

/-- The JSON form: the places in order, the reserved one among them. -/
def toJson (c : Catalog) : Json :=
  .obj [("descriptions", .arr (c.descriptions.toList.map .str))]

/-! ## Lemmas -/

theorem size_ofList (descriptions : List String) :
    (ofList descriptions).size = descriptions.length + 1 := rfl

theorem getElem?_ofList (descriptions : List String) (place : Nat) :
    (ofList descriptions).descriptions[place + 1]? = descriptions[place]? := by
  rw [ofList, List.getElem?_toArray, List.getElem?_cons_succ]

theorem get?_ofList (descriptions : List String) (index : UInt64) :
    (ofList descriptions).get? index =
      if index = 0 then none else descriptions[index.toNat - 1]? := by
  unfold get?
  split
  · rfl
  · rename_i h
    have hpos : index.toNat ≠ 0 := fun hzero => h (UInt64.toNat_inj.mp hzero)
    obtain ⟨place, hplace⟩ := Nat.exists_eq_succ_of_ne_zero hpos
    rw [hplace, getElem?_ofList, Nat.succ_sub_one]

/-- **The numbers of a catalog** are its places from 1 on. -/
theorem get?_eq_some_iff {c : Catalog} {index : UInt64} {description : String} :
    c.get? index = some description ↔
      1 ≤ index.toNat ∧ index.toNat < c.size ∧
        c.descriptions[index.toNat]? = some description := by
  unfold get?
  have hzero : index = 0 ↔ index.toNat = 0 := by rw [← UInt64.toNat_inj]; rfl
  split
  · rename_i h
    have := hzero.mp h
    constructor
    · intro hn; cases hn
    · rintro ⟨hlow, -⟩; omega
  · rename_i h
    have hne : index.toNat ≠ 0 := fun h0 => h (hzero.mpr h0)
    constructor
    · intro hd
      obtain ⟨hlt, -⟩ := Array.getElem?_eq_some_iff.mp hd
      exact ⟨by omega, hlt, hd⟩
    · rintro ⟨-, -, hd⟩; exact hd

theorem get?_eq_none_iff {c : Catalog} {index : UInt64} :
    c.get? index = none ↔ ¬(1 ≤ index.toNat ∧ index.toNat < c.size) := by
  constructor
  · rintro h ⟨hlow, hhigh⟩
    have hsome := get?_eq_some_iff.mpr ⟨hlow, hhigh, Array.getElem?_eq_getElem hhigh⟩
    rw [h] at hsome
    cases hsome
  · intro h
    cases hd : c.get? index with
    | none => rfl
    | some description =>
      obtain ⟨hlow, hhigh, -⟩ := get?_eq_some_iff.mp hd
      exact absurd ⟨hlow, hhigh⟩ h

/-- **The entries** are the places from 1 on with what they hold. -/
theorem getElem?_entries (c : Catalog) (place : Nat) : c.entries[place]? =
    c.descriptions[place + 1]?.map fun description => (place + 1, description) := by
  unfold entries
  rw [List.getElem?_map, List.getElem?_drop, List.getElem?_zipIdx, Array.getElem?_toList,
    Option.map_map, Nat.add_comm 1 place, Nat.zero_add]
  rfl

end Catalog

end CardContent
