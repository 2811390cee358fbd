import CardContent.Compendium
import CardContent.Deck
import CardContent.Proofs.Text.Words
import Mathlib

/-!
# A key is its own key

A key is made in three passes: a name is spelled in ASCII, its words are joined by single spaces,
and it is put into lower case. Each pass may bring in what the others are there to remove, spelling
even capitals and line feeds, but none undoes what an earlier one has done, so that the outcome is
as all three want it. Such a text has a form of its own (`IsKey`) that mentions no spelling.

Results:
* `plain_toAscii`, `toAscii_of_plain`: a text is spelled in ASCII, and left alone if it is in ASCII.
* `isKey_key`: every key has the form of keys.
* `key_of_isKey`: a text of this form is its own key.
* `key_retraction`: so keys are exactly the texts that are their own keys, and a name is looked up
  like its key.
-/

set_option autoImplicit false

namespace CardContent.Name

/-- The form of keys: words of ASCII in lower case, with one space between any two. -/
structure IsKey (k : String) : Prop where
  plain : ∀ c ∈ k.toList, c.toNat < 0x7F
  lower : ∀ c ∈ k.toList, ¬('A' ≤ c ∧ c ≤ 'Z')
  spaced : Text.Spaced k.toList

/-- Two names find the same card in every compendium and the same copies in every deck. -/
structure FindSame [Spelling] (a b : String) : Prop where
  card? : ∀ c : Compendium, c.card? a = c.card? b
  knows : ∀ c : Compendium, c.knows a = c.knows b
  copies : ∀ deck : Deck, deck.copies a = deck.copies b

theorem findSame_of_key_eq [Spelling] {a b : String} (h : Name.key a = Name.key b) :
    FindSame a b where
  card? c := by rw [Compendium.card?, Compendium.card?, h]
  knows c := by rw [Compendium.knows, Compendium.knows, h]
  copies deck := by rw [Deck.copies, Deck.copies, h]

/-! ## Lower case -/

theorem isUpper_iff_le {c : Char} : c.isUpper = true ↔ 'A' ≤ c ∧ c ≤ 'Z' := by
  simp only [Char.isUpper, decide_eq_true_eq, ge_iff_le, Char.le_def]

theorem toNat_toLower_of_isUpper {c : Char} (h : c.isUpper = true) :
    65 ≤ c.toNat ∧ c.toNat ≤ 90 ∧ c.toLower.toNat = c.toNat + 32 := by
  have hcodes := h
  simp only [Char.isUpper, decide_eq_true_eq, ge_iff_le, UInt32.le_iff_toNat_le] at hcodes
  have hlow : 65 ≤ c.toNat := hcodes.1
  have hhigh : c.toNat ≤ 90 := hcodes.2
  refine ⟨hlow, hhigh, ?_⟩
  rw [Char.toLower_eq_of_isUpper h, Char.toNat_ofNat, if_pos (Or.inl (by omega))]

theorem isPlain_toLower {c : Char} (h : isPlain c = true) : isPlain c.toLower = true := by
  by_cases hc : c.isUpper = true
  · obtain ⟨-, hhigh, hlower⟩ := toNat_toLower_of_isUpper hc
    exact decide_eq_true (by omega)
  · rwa [Char.toLower_eq_of_not_isUpper hc]

/-- No letter becomes white space. -/
theorem not_blank_toLower (c : Char) (h : Text.isBlank c = false) :
    Text.isBlank c.toLower = false := by
  by_cases hc : c.isUpper = true
  · obtain ⟨hlow, hhigh, hlower⟩ := toNat_toLower_of_isUpper hc
    simp only [Text.isBlank, Text.blankRanges, List.any_cons, List.any_nil, Bool.or_false,
      Bool.or_eq_false_iff, Bool.and_eq_false_iff, decide_eq_false_iff_not]
    omega
  · rwa [Char.toLower_eq_of_not_isUpper hc]

/-! ## ASCII -/

namespace Spelling

variable (spelling : Spelling)

/-- Whatever is dropped at the end of a spelling, what is left is in ASCII. -/
theorem plain_respell : ∀ text : List Char, ∀ x ∈ spelling.respell text, isPlain x = true
  | [] => fun x hx => absurd hx List.not_mem_nil
  | c :: rest => by
    unfold respell
    rw [List.forall_mem_append]
    refine ⟨?_, plain_respell rest⟩
    split
    · exact fun x hx => spelling.plain c x (List.mem_of_mem_dropLast hx)
    · exact spelling.plain c

/-- **A text is spelled in ASCII.** -/
theorem plain_toAscii (text : List Char) : ∀ x ∈ spelling.toAscii text, isPlain x = true := by
  unfold toAscii
  rw [List.forall_mem_append]
  exact ⟨fun x hx => List.mem_takeWhile_imp hx, spelling.plain_respell _⟩

/-- **A text in ASCII is left alone**, its controls included. -/
theorem toAscii_of_plain {text : List Char} (h : ∀ c ∈ text, isPlain c = true) :
    spelling.toAscii text = text := by
  have htake : text.takeWhile isPlain = text := List.takeWhile_eq_self_iff.mpr h
  have hdrop : text.dropWhile isPlain = [] := List.dropWhile_eq_nil_iff.mpr h
  rw [toAscii, htake, hdrop, respell, List.append_nil]

/-! ## Keys -/

theorem toList_key (name : String) : (spelling.key name).toList = spelling.keyChars name.toList :=
  String.toList_ofList

/-- **Every key has the form of keys**, whatever is spelled how. -/
theorem isKey_key (name : String) : IsKey (spelling.key name) := by
  have hspace : ∀ c ∈ [' '], isPlain c = true := List.forall_mem_singleton.mpr rfl
  have hplain : ∀ c ∈ [' '].intercalate (Text.words (spelling.toAscii name.toList)),
      isPlain c = true :=
    Text.forall_mem_intercalate hspace fun _ hword c hc =>
      spelling.plain_toAscii _ c (Text.mem_of_mem_words hword c hc)
  constructor
  · rw [toList_key, keyChars, List.forall_mem_map]
    exact fun c hc => of_decide_eq_true (isPlain_toLower (hplain c hc))
  · rw [toList_key, keyChars, List.forall_mem_map]
    intro c _ hupper
    have := isUpper_iff_le.mpr hupper
    rw [Char.isUpper_toLower_eq_false] at this
    cases this
  · rw [toList_key, keyChars]
    exact (Text.spaced_joined_words _).map (by decide) not_blank_toLower

/-- **A text that has the form of keys is its own key.** -/
theorem key_of_isKey {k : String} (h : IsKey k) : spelling.key k = k := by
  have hlower : ∀ c ∈ k.toList, c.toLower = c := fun c hc =>
    Char.toLower_eq_of_not_isUpper fun hupper => h.lower c hc (isUpper_iff_le.mp hupper)
  have hplain : ∀ c ∈ k.toList, isPlain c = true := fun c hc => decide_eq_true (h.plain c hc)
  rw [key, keyChars, spelling.toAscii_of_plain hplain, Text.joined_words_of_spaced h.spaced,
    List.map_congr_left hlower, List.map_id', String.ofList_toList]

/-- **Keys are exactly the texts that are their own keys**, whatever is spelled how: every key has
the form of keys, and a text is its own key exactly if it has it. So a name and its key have the
same key, and in whatever is filed under keys, in a compendium and in a deck, they find the same. -/
theorem key_retraction (spelling : Spelling) :
    (∀ name, IsKey (spelling.key name)) ∧
      (∀ k, spelling.key k = k ↔ IsKey k) ∧
      (∀ name, spelling.key (spelling.key name) = spelling.key name) ∧
      (∀ (α : Type) (r : Roster α) (name : String),
        r.find? (spelling.key (spelling.key name)) = r.find? (spelling.key name) ∧
          r.contains (spelling.key (spelling.key name)) = r.contains (spelling.key name)) ∧
      (∀ (c : Compendium) (name : String),
        c.card? (spelling.key name) = c.card? name ∧ c.knows (spelling.key name) = c.knows name) ∧
      ∀ (deck : Deck) (name : String), deck.copies (spelling.key name) = deck.copies name := by
  have htwice : ∀ name, spelling.key (spelling.key name) = spelling.key name :=
    fun name => spelling.key_of_isKey (spelling.isKey_key name)
  have hsame : ∀ name, FindSame (spelling.key name) name :=
    fun name => findSame_of_key_eq (htwice name)
  refine ⟨spelling.isKey_key, fun k => ⟨fun h => h ▸ spelling.isKey_key k, spelling.key_of_isKey⟩,
    htwice, fun α r name => ?_, fun c name => ⟨(hsame name).card? c, (hsame name).knows c⟩,
    fun deck name => (hsame name).copies deck⟩
  rw [htwice]
  exact ⟨rfl, rfl⟩

end Spelling

end CardContent.Name
