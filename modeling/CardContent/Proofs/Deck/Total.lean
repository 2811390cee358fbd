import CardContent.Name.Table
import CardContent.Proofs.Deck.Reading
import CardContent.Proofs.Name.Key
import Mathlib

/-!
# What a deck says of its cards, and what it says in all

A deck is asked for its copies of a card by name, and its total is the sum of all its counts. The
two agree but for the entries that are hidden by a later entry with the same key: their counts are
in the total and are not found.

* `keys deck` are the keys of the entries, each of them once.
* `countUnder deck key` is the count that is found under a key, and `found deck` the sum of these
  counts over all keys.
* `HidesNone earlier later` says that no copies are hidden by the later one of two entries.
* `counted deck` is the sum of all counts, however large it is.

Results:
* `found_add`: an entry adds its count to what is found, and takes away the count that it hides.
* `found_le_counted_and_eq_iff`: so what is found is at most all that is counted, and all of it
  exactly if no entry with copies is hidden.
* `total?_eq_some_iff`: the total is the sum of all counts modulo `2 ^ 32`, and there is none
  exactly if the sum needs more than 32 bits and the program stops at that.
* `copies_sum_to_total`: the same about the copies of the cards of a list of lines.
-/

set_option autoImplicit false

namespace CardContent.Deck

/-- The sum of all counts, however large it is. -/
def counted (deck : Deck) : Nat :=
  (deck.toList.map fun entry => entry.count.toNat).sum

/-! ## Sums in 32 bits -/

theorem add?_eq_some_iff {overflow : Overflow} {a b sum : UInt32} :
    overflow.add? a b = some sum ↔ sum.toNat = (a.toNat + b.toNat) % 2 ^ 32 ∧
      (overflow = .stops → a.toNat + b.toNat < 2 ^ 32) := by
  have hsum : some (a + b) = some sum ↔ sum.toNat = (a.toNat + b.toNat) % 2 ^ 32 := by
    rw [Option.some.injEq, ← UInt32.toNat_inj, UInt32.toNat_add, eq_comm]
  have hsize : UInt32.size = 2 ^ 32 := rfl
  unfold Overflow.add?
  rw [hsize]
  split
  · rename_i hfits
    rw [hsum, and_iff_left fun _ => hfits]
  · rename_i hlarge
    cases overflow with
    | wraps => simpa using hsum
    | stops =>
      constructor
      · exact fun h => nomatch h
      · exact fun ⟨_, hfits⟩ => absurd (hfits rfl) hlarge

/-- **Counts are summed up modulo `2 ^ 32`**, and if the program stops at an overflow, only where
the whole sum needs no more: no sum on the way does then. -/
theorem foldlM_add?_eq_some_iff {overflow : Overflow} {entries : List DeckEntry}
    {sum total : UInt32} :
    entries.foldlM (fun sum entry => overflow.add? sum entry.count) sum = some total ↔
      total.toNat = (sum.toNat + (entries.map fun entry => entry.count.toNat).sum) % 2 ^ 32 ∧
        (overflow = .stops →
          sum.toNat + (entries.map fun entry => entry.count.toNat).sum < 2 ^ 32) := by
  induction entries generalizing sum with
  | nil =>
    have hlt := sum.toNat_lt
    simp [Nat.mod_eq_of_lt hlt, UInt32.toNat_inj, eq_comm, hlt]
  | cons entry rest ih =>
    rw [List.foldlM_cons, Option.bind_eq_bind, Option.bind_eq_some_iff, List.map_cons,
      List.sum_cons, ← Nat.add_assoc]
    simp only [add?_eq_some_iff, ih]
    constructor
    · rintro ⟨next, ⟨hnext, hfits⟩, htotal, hall⟩
      rw [hnext, Nat.mod_add_mod] at htotal
      refine ⟨htotal, fun hstops => ?_⟩
      have hall := hall hstops
      rwa [hnext, Nat.mod_eq_of_lt (hfits hstops)] at hall
    · rintro ⟨htotal, hall⟩
      have hnext : (sum + entry.count).toNat = (sum.toNat + entry.count.toNat) % 2 ^ 32 :=
        UInt32.toNat_add ..
      refine ⟨sum + entry.count, ⟨hnext, fun hstops => ?_⟩, ?_, fun hstops => ?_⟩
      · have := hall hstops
        omega
      · rw [hnext, Nat.mod_add_mod, htotal]
      · have hlt := hall hstops
        rwa [hnext, Nat.mod_eq_of_lt (by omega)]

variable {deck : Deck} {overflow : Overflow}

/-- **The total is the sum of all counts** modulo `2 ^ 32`. There is none exactly if the sum needs
more than 32 bits and the program stops at that. -/
theorem total?_eq_some_iff {total : UInt32} :
    deck.total? overflow = some total ↔ total.toNat = deck.counted % 2 ^ 32 ∧
      (overflow = .stops → deck.counted < 2 ^ 32) := by
  rw [total?, foldlM_add?_eq_some_iff, UInt32.toNat_zero, Nat.zero_add]
  rfl

/-- A sum that 32 bits hold is the total, whatever becomes of others. -/
theorem total?_of_lt (h : deck.counted < 2 ^ 32) (overflow : Overflow) :
    deck.total? overflow = some (.ofNat deck.counted) := by
  rw [total?_eq_some_iff, UInt32.toNat_ofNat_of_lt' h, Nat.mod_eq_of_lt h]
  exact ⟨rfl, fun _ => h⟩

theorem total?_eq_none_iff :
    deck.total? overflow = none ↔ overflow = .stops ∧ 2 ^ 32 ≤ deck.counted := by
  rw [Option.eq_none_iff_forall_ne_some]
  simp only [ne_eq, total?_eq_some_iff]
  constructor
  · intro hnone
    have hmod : (UInt32.ofNat deck.counted).toNat = deck.counted % 2 ^ 32 := UInt32.toNat_ofNat
    by_contra hnot
    exact hnone _ ⟨hmod, fun hstops => Nat.lt_of_not_le fun hle => hnot ⟨hstops, hle⟩⟩
  · rintro ⟨hstops, hle⟩ total ⟨-, hlt⟩
    exact absurd (hlt hstops) (Nat.not_lt.mpr hle)

section Copies

variable [Name.Spelling]

/-- The keys of the names in a deck. -/
def keys (deck : Deck) : Finset String :=
  (deck.toList.map fun entry => Name.key entry.name).toFinset

/-- The count that is found under a key. -/
def countUnder (deck : Deck) (key : String) : Nat :=
  match deck.find? key with
  | some entry => entry.count.toNat
  | none => 0

/-- All that is found, if each key is looked up once. -/
def found (deck : Deck) : Nat :=
  ∑ key ∈ deck.keys, deck.countUnder key

/-- No copies are hidden by the later entry: the earlier one has another key or no copies. -/
def HidesNone (earlier later : DeckEntry) : Prop :=
  Name.key earlier.name = Name.key later.name → earlier.count = 0

instance : DecidableRel HidesNone := fun earlier later =>
  inferInstanceAs (Decidable (Name.key earlier.name = Name.key later.name → earlier.count = 0))

/-- The deck was filled by filing entries under the keys of their names. -/
abbrev Filed (deck : Deck) : Prop :=
  Roster.Indexed (fun entry => Name.key entry.name) deck

theorem toNat_copies (deck : Deck) (name : String) :
    (deck.copies name).toNat = deck.countUnder (Name.key name) := by
  unfold copies countUnder
  cases deck.find? (Name.key name) <;> rfl

/-! ## One entry more -/

theorem toList_add (deck : Deck) (entry : DeckEntry) :
    (deck.add entry).toList = deck.toList ++ [entry] :=
  Roster.toList_insert deck _ entry

theorem counted_add (deck : Deck) (entry : DeckEntry) :
    (deck.add entry).counted = deck.counted + entry.count.toNat := by
  rw [counted, counted, toList_add, List.map_append, List.sum_append, List.map_singleton,
    List.sum_singleton]

theorem keys_add (deck : Deck) (entry : DeckEntry) :
    (deck.add entry).keys = insert (Name.key entry.name) deck.keys := by
  simp [keys, toList_add]

theorem countUnder_add_self (deck : Deck) (entry : DeckEntry) :
    (deck.add entry).countUnder (Name.key entry.name) = entry.count.toNat := by
  rw [countUnder, add, Roster.find?_insert_self]

theorem countUnder_add_of_ne (h : Filed deck) {entry : DeckEntry} {key : String}
    (hne : Name.key entry.name ≠ key) : (deck.add entry).countUnder key = deck.countUnder key := by
  rw [countUnder, add, Roster.find?_insert_of_ne h.bounded hne, countUnder]

theorem countUnder_of_notMem (h : Filed deck) {key : String} (hkey : key ∉ deck.keys) :
    deck.countUnder key = 0 := by
  have hnone : (deck.toList.filter fun entry => Name.key entry.name = key) = [] := by
    refine List.filter_eq_nil_iff.mpr fun entry hentry hk => hkey ?_
    exact List.mem_toFinset.mpr (List.mem_map.mpr ⟨entry, hentry, of_decide_eq_true hk⟩)
  rw [countUnder, h.latest, hnone]
  rfl

/-- **An entry adds its count to what is found**, and takes away the count that it hides. -/
theorem found_add (h : Filed deck) (entry : DeckEntry) :
    (deck.add entry).found + deck.countUnder (Name.key entry.name) =
      deck.found + entry.count.toNat := by
  have hothers : ∑ key ∈ deck.keys.erase (Name.key entry.name), (deck.add entry).countUnder key =
      ∑ key ∈ deck.keys.erase (Name.key entry.name), deck.countUnder key :=
    Finset.sum_congr rfl fun key hkey =>
      countUnder_add_of_ne h (Finset.ne_of_mem_erase hkey).symm
  have hnew : (deck.add entry).found = entry.count.toNat +
      ∑ key ∈ deck.keys.erase (Name.key entry.name), deck.countUnder key := by
    rw [found, keys_add, ← Finset.add_sum_erase _ _ (Finset.mem_insert_self _ _),
      Finset.erase_insert_eq_erase, countUnder_add_self, hothers]
  have hold : deck.found = deck.countUnder (Name.key entry.name) +
      ∑ key ∈ deck.keys.erase (Name.key entry.name), deck.countUnder key := by
    by_cases hkey : Name.key entry.name ∈ deck.keys
    · exact (Finset.add_sum_erase _ _ hkey).symm
    · rw [countUnder_of_notMem h hkey, Finset.erase_eq_of_notMem hkey, Nat.zero_add, found]
  omega

/-! ## All entries -/

/-- The last of several entries with one key hides the others. -/
theorem forall_count_eq_zero_iff {front : List DeckEntry} {last : DeckEntry}
    (hkey : ∀ entry ∈ front, Name.key entry.name = Name.key last.name)
    (hnone : (front ++ [last]).Pairwise HidesNone) :
    (∀ entry ∈ front ++ [last], entry.count = 0) ↔ last.count = 0 := by
  have hhidden : ∀ entry ∈ front, entry.count = 0 := fun entry hentry =>
    (List.pairwise_append.mp hnone).2.2 entry hentry last List.mem_cons_self (hkey entry hentry)
  rw [List.forall_mem_append, List.forall_mem_singleton, and_iff_right hhidden]

/-- Where no entry with copies is hidden, nothing is found under a key exactly if none of its
entries has copies. -/
theorem countUnder_eq_zero_iff (h : Filed deck) (hnone : deck.toList.Pairwise HidesNone)
    (key : String) : deck.countUnder key = 0 ↔
      ∀ entry ∈ deck.toList, Name.key entry.name = key → entry.count = 0 := by
  have hmem : ∀ entry, entry ∈ (deck.toList.filter fun entry => Name.key entry.name = key) ↔
      entry ∈ deck.toList ∧ Name.key entry.name = key := by
    simp only [List.mem_filter, decide_eq_true_eq, implies_true]
  have hpairs := hnone.filter fun entry => Name.key entry.name = key
  simp only [countUnder, h.latest, ← and_imp, ← hmem]
  rcases List.eq_nil_or_concat' (deck.toList.filter fun entry => Name.key entry.name = key) with
    hnil | ⟨front, last, hconcat⟩
  · rw [hnil]
    exact iff_of_true rfl fun entry hentry => absurd hentry List.not_mem_nil
  · rw [hconcat] at hmem hpairs ⊢
    have hkey : ∀ entry ∈ front, Name.key entry.name = Name.key last.name := fun entry hentry =>
      ((hmem entry).mp (List.mem_append_left _ hentry)).2.trans ((hmem last).mp (by simp)).2.symm
    rw [forall_count_eq_zero_iff hkey hpairs, List.getLast?_concat]
    exact UInt32.toNat_inj (b := 0)

/-- One entry more hides none with copies exactly if those with its key have none. -/
theorem pairwise_add_iff (deck : Deck) (entry : DeckEntry) :
    (deck.add entry).toList.Pairwise HidesNone ↔ deck.toList.Pairwise HidesNone ∧
      ∀ earlier ∈ deck.toList, Name.key earlier.name = Name.key entry.name → earlier.count = 0 := by
  rw [toList_add, List.pairwise_append]
  simp only [List.pairwise_singleton, List.forall_mem_singleton, true_and]
  rfl

theorem ofEntries_append_singleton (entries : List DeckEntry) (entry : DeckEntry) :
    ofEntries (entries ++ [entry]) = (ofEntries entries).add entry := by
  rw [ofEntries, List.foldl_append]
  rfl

/-- **What is found is at most all that is counted**, and all of it exactly if no entry with copies
is hidden. -/
theorem found_le_counted_and_eq_iff (entries : List DeckEntry) :
    (ofEntries entries).found ≤ (ofEntries entries).counted ∧
      ((ofEntries entries).found = (ofEntries entries).counted ↔
        (ofEntries entries).toList.Pairwise HidesNone) := by
  induction entries using List.reverseRec with
  | nil => exact ⟨Nat.le_refl 0, iff_of_true rfl List.Pairwise.nil⟩
  | append_singleton entries entry ih =>
    obtain ⟨hle, heq⟩ := ih
    have hfiled : Filed (ofEntries entries) := indexed_ofEntries entries
    have hfound := found_add hfiled entry
    have hcounted := counted_add (ofEntries entries) entry
    rw [ofEntries_append_singleton]
    refine ⟨by omega, ?_⟩
    have hboth : ((ofEntries entries).add entry).found = ((ofEntries entries).add entry).counted ↔
        (ofEntries entries).found = (ofEntries entries).counted ∧
          (ofEntries entries).countUnder (Name.key entry.name) = 0 := by omega
    rw [hboth, pairwise_add_iff, heq]
    exact and_congr_right fun hnone => countUnder_eq_zero_iff hfiled hnone _

/-! ## Copies by name -/

theorem key_of_mem_keys {key : String} (h : key ∈ deck.keys) : Name.key key = key := by
  obtain ⟨entry, -, rfl⟩ := List.mem_map.mp (List.mem_toFinset.mp h)
  exact Name.Spelling.key_of_isKey _ (Name.Spelling.isKey_key _ entry.name)

/-- Whichever spelling each key is looked up in, the copies add up to all that is found. -/
theorem sum_copies_eq_found {spelled : String → String}
    (h : ∀ key ∈ deck.keys, Name.key (spelled key) = key) :
    ∑ key ∈ deck.keys, (deck.copies (spelled key)).toNat = deck.found :=
  Finset.sum_congr rfl fun key hkey => by rw [toNat_copies, h key hkey]

/-- **The copies of the cards add up to the total**, but for the entries that are hidden. If each
key of a deck list is looked up once, then all that is found is at most the sum of all counts, and
it is this sum exactly if every entry that is followed by one with the same key has no copies. So it
is if no two entries have the same key. It makes no difference in which spelling a key is looked up.
A sum below `2 ^ 32` is the total. Of a larger one, the total keeps the lowest 32 bits, or the
program stops. -/
theorem copies_sum_to_total {lines : List String} {deck : Deck} (h : ofLines lines = .ok deck) :
    ∑ key ∈ deck.keys, (deck.copies key).toNat ≤ deck.counted ∧
      (∑ key ∈ deck.keys, (deck.copies key).toNat = deck.counted ↔
        deck.toList.Pairwise HidesNone) ∧
      ((deck.toList.map fun entry => Name.key entry.name).Nodup →
        ∑ key ∈ deck.keys, (deck.copies key).toNat = deck.counted) ∧
      (∀ spelled : String → String, (∀ key ∈ deck.keys, Name.key (spelled key) = key) →
        ∑ key ∈ deck.keys, (deck.copies (spelled key)).toNat =
          ∑ key ∈ deck.keys, (deck.copies key).toNat) ∧
      (deck.counted < 2 ^ 32 → ∃ total : UInt32,
        (∀ overflow, deck.total? overflow = some total) ∧ total.toNat = deck.counted ∧
          ∑ key ∈ deck.keys, (deck.copies key).toNat ≤ total.toNat ∧
          (∑ key ∈ deck.keys, (deck.copies key).toNat = total.toNat ↔
            deck.toList.Pairwise HidesNone)) ∧
      (2 ^ 32 ≤ deck.counted → deck.total? .stops = none ∧
        ∃ total : UInt32, deck.total? .wraps = some total ∧
          total.toNat = deck.counted % 2 ^ 32) := by
  have hsum : ∑ key ∈ deck.keys, (deck.copies key).toNat = deck.found :=
    sum_copies_eq_found fun _ => key_of_mem_keys
  obtain ⟨read, -, rfl⟩ := ofLines_eq_ok_iff.mp h
  obtain ⟨hle, heq⟩ := found_le_counted_and_eq_iff read.reduceOption
  rw [hsum]
  refine ⟨hle, heq, fun hkeys => heq.mpr ?_, fun _ => sum_copies_eq_found, fun hlt => ?_,
    fun hlarge => ⟨total?_eq_none_iff.mpr ⟨rfl, hlarge⟩, ?_⟩⟩
  · exact (List.pairwise_map.mp hkeys).imp fun hne hkey => absurd hkey hne
  · have htotal := UInt32.toNat_ofNat_of_lt' hlt
    refine ⟨_, total?_of_lt hlt, htotal, ?_⟩
    rw [htotal]
    exact ⟨hle, heq⟩
  · exact ⟨.ofNat _, total?_eq_some_iff.mpr ⟨UInt32.toNat_ofNat, nofun⟩, UInt32.toNat_ofNat⟩

end Copies

section Example

open scoped Name.Table

/-- A deck list with a hidden entry that has copies and one that has none. -/
def seerLines : List String := ["Seer: 2", "Mystic: 0", "# more", "SÉER: 3", "mystic : 4"]

theorem copies_sum_to_total_seer : ∃ deck,
    ofLines seerLines = .ok deck ∧ deck.keys = {"seer", "mystic"} ∧
      (∀ overflow, deck.total? overflow = some 9) ∧
      ∑ key ∈ deck.keys, (deck.copies key).toNat < 9 ∧
      ∑ key ∈ deck.keys, (deck.copies (if key = "seer" then "séer" else key)).toNat < 9 := by
  let entries : List DeckEntry := [⟨"Seer", 2⟩, ⟨"Mystic", 0⟩, ⟨"SÉER", 3⟩, ⟨"mystic", 4⟩]
  have hlines : ofLines seerLines = .ok (ofEntries entries) := by rfl
  have hentries : (ofEntries entries).toList = entries := toList_ofEntries entries
  have hkeys : (ofEntries entries).keys = {"seer", "mystic"} := by
    rw [keys, hentries]
    decide +kernel
  have hspelled : ∀ key ∈ (ofEntries entries).keys,
      Name.key (if key = "seer" then "séer" else key) = key := by
    rw [hkeys]
    decide +kernel
  have hhides : ¬entries.Pairwise HidesNone := by decide +kernel
  have hcounted : (ofEntries entries).counted = 9 := by
    rw [counted, hentries]
    rfl
  obtain ⟨hle, heq, -, hanySpelling, -⟩ := copies_sum_to_total hlines
  rw [hcounted] at hle heq
  have hlt : ∑ key ∈ (ofEntries entries).keys, ((ofEntries entries).copies key).toNat < 9 :=
    lt_of_le_of_ne hle fun hall => hhides (hentries ▸ heq.mp hall)
  have htotal : ∀ overflow, (ofEntries entries).total? overflow = some 9 := fun overflow => by
    rw [total?_of_lt (by rw [hcounted]; decide), hcounted]
    rfl
  refine ⟨_, hlines, hkeys, htotal, hlt, ?_⟩
  rw [hanySpelling _ hspelled]
  exact hlt

end Example

end CardContent.Deck
