import CardContent.Roster
import Mathlib.Data.List.Basic

/-!
# A roster finds the last entry of each key

The entries of a roster stand in a list, and the position of one entry for each key in a table.
`Indexed key r` says that list and table agree if every entry was filed under its `key`: positions
are those of entries, and what is found under a key is the last entry that has it. An entry takes
over the position of its key before it stands in the list, so the two parts are kept together or
not at all.

Results:
* `indexed_empty`, `indexed_insert`: a roster is indexed at the beginning, and stays so when an
  entry is filed under its key.
* `indexed_foldl_insert`: so it stays indexed whichever entries are filed one after the other.
* `Indexed.contains_eq`: an indexed roster contains a key exactly if something is found under it.
-/

set_option autoImplicit false

namespace CardContent.Roster

variable {α : Type} {key : α → String} {r : Roster α}

/-- Every position is that of an entry, and the last entry with a key is found under it. -/
structure Indexed (key : α → String) (r : Roster α) : Prop where
  bounded : ∀ (k : String) (i : Nat), r.positions[k]? = some i → i < r.size
  latest : ∀ k, r.find? k = (r.toList.filter fun entry => key entry = k).getLast?

/-! ## One entry more -/

theorem positions_insert (r : Roster α) (k k' : String) (entry : α) :
    (r.insert k entry).positions[k']? = if k = k' then some r.size else r.positions[k']? := by
  show (r.positions.insert k r.entries.size)[k']? = _
  rw [Std.HashMap.getElem?_insert]
  simp only [beq_iff_eq, size]

@[simp] theorem size_insert (r : Roster α) (k : String) (entry : α) :
    (r.insert k entry).size = r.size + 1 :=
  Array.size_push entry

theorem find?_insert_self (r : Roster α) (k : String) (entry : α) :
    (r.insert k entry).find? k = some entry := by
  rw [find?, positions_insert, if_pos rfl]
  exact Array.getElem?_push_size

/-- A new entry hides no entry of another key, positions being those of older entries. -/
theorem find?_insert_of_ne
    (hbounded : ∀ (k : String) (i : Nat), r.positions[k]? = some i → i < r.size)
    {k k' : String} (hne : k ≠ k') (entry : α) :
    (r.insert k entry).find? k' = r.find? k' := by
  rw [find?, find?, positions_insert, if_neg hne]
  cases hposition : r.positions[k']? with
  | none => rfl
  | some i =>
    have hlt : i < r.entries.size := hbounded k' i hposition
    show (r.entries.push entry)[i]? = r.entries[i]?
    rw [Array.getElem?_push, if_neg (Nat.ne_of_lt hlt)]

/-! ## Indexed rosters -/

theorem indexed_empty : Indexed key empty where
  bounded k i h := by
    rw [empty, Std.HashMap.getElem?_empty] at h
    cases h
  latest k := by
    rw [find?, empty, Std.HashMap.getElem?_empty]
    rfl

/-- **An entry filed under its key leaves a roster indexed.** -/
theorem indexed_insert (h : Indexed key r) (entry : α) :
    Indexed key (r.insert (key entry) entry) where
  bounded k i hi := by
    rw [size_insert]
    rw [positions_insert] at hi
    split at hi
    · cases hi
      exact Nat.lt_succ_self r.size
    · exact Nat.lt_succ_of_lt (h.bounded k i hi)
  latest k := by
    rw [toList_insert, List.filter_append]
    by_cases hk : key entry = k
    · subst hk
      rw [find?_insert_self, List.filter_singleton, decide_eq_true rfl, cond_true,
        List.getLast?_concat]
    · rw [find?_insert_of_ne h.bounded hk, List.filter_singleton, decide_eq_false hk, cond_false,
        List.append_nil]
      exact h.latest k

/-- **Entries filed one after the other leave a roster indexed**, however often a key occurs. -/
theorem indexed_foldl_insert (h : Indexed key r) (entries : List α) :
    Indexed key (entries.foldl (fun r entry => r.insert (key entry) entry) r) := by
  induction entries generalizing r with
  | nil => exact h
  | cons entry rest ih => exact ih (indexed_insert h entry)

/-- **A key is contained** exactly if an entry is found under it. -/
theorem Indexed.contains_eq (h : Indexed key r) (k : String) :
    r.contains k = (r.find? k).isSome := by
  rw [contains, Std.HashMap.contains_eq_isSome_getElem?, find?]
  cases hposition : r.positions[k]? with
  | none => rfl
  | some i =>
    have hlt : i < r.entries.size := h.bounded k i hposition
    rw [Option.bind_some, Array.getElem?_eq_getElem hlt]
    rfl

end CardContent.Roster
