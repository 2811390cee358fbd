import Std.Data.HashMap

/-!
# Entries in order of arrival, found by key

A roster keeps every entry in the order in which it came, and for each key the position of the
entry that came last under it. An entry that shares its key with an earlier one therefore hides
the earlier one from look-up and leaves it in the list.
-/

set_option autoImplicit false

namespace CardContent

/-- Entries in order of arrival, with the last position of each key (the fields of `CardDatabase`
and of `CardCounts`). -/
structure Roster (α : Type) where
  entries : Array α
  positions : Std.HashMap String Nat

namespace Roster

variable {α : Type}

/-- The roster without entries. -/
def empty : Roster α where
  entries := #[]
  positions := ∅

instance : Inhabited (Roster α) := ⟨empty⟩

/-- Add an entry at the end, to be found under `key` from now on. -/
def insert (r : Roster α) (key : String) (entry : α) : Roster α where
  entries := r.entries.push entry
  positions := r.positions.insert key r.entries.size

/-- The entry that came last under `key`. -/
def find? (r : Roster α) (key : String) : Option α :=
  r.positions[key]?.bind fun i => r.entries[i]?

/-- Whether any entry came under `key`. -/
def contains (r : Roster α) (key : String) : Bool :=
  r.positions.contains key

/-- All entries in order of arrival (`CardDatabase::cards`, `CardCounts::entries`). -/
def toList (r : Roster α) : List α :=
  r.entries.toList

/-- The number of entries (`CardDatabase::len`, `CardCounts::len`). -/
def size (r : Roster α) : Nat :=
  r.entries.size

@[simp] theorem toList_empty : (empty : Roster α).toList = [] := rfl

@[simp] theorem toList_insert (r : Roster α) (key : String) (entry : α) :
    (r.insert key entry).toList = r.toList ++ [entry] := by
  simp [toList, insert]

/-- Entries that are filed one after the other come behind those that are there. -/
theorem toList_foldl_insert (key : α → String) (r : Roster α) (entries : List α) :
    (entries.foldl (fun r entry => r.insert (key entry) entry) r).toList = r.toList ++ entries := by
  induction entries generalizing r with
  | nil => rw [List.foldl_nil, List.append_nil]
  | cons entry rest ih =>
    rw [List.foldl_cons, ih, toList_insert, List.append_assoc, List.singleton_append]

theorem mem_toList_of_find? {r : Roster α} {key : String} {entry : α}
    (h : r.find? key = some entry) : entry ∈ r.toList := by
  obtain ⟨i, -, hi⟩ := Option.bind_eq_some_iff.mp h
  exact Array.mem_def.mp (Array.mem_of_getElem? hi)

theorem size_eq_length (r : Roster α) : r.size = r.toList.length := by
  simp [size, toList]

end Roster

end CardContent
