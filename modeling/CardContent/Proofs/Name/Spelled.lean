import CardContent.Proofs.Name.Key

/-!
# What a key keeps of the spelling of a name

A key has the words of a name spelled in ASCII. Between words it makes no difference which spaces
a spelling gives up, so these words are read off a spelling that gives up none (`spellOut`). That
one goes character by character, and knows of what stands in front of a text only whether it is
ASCII (`plain`): from the first other character on, a control is spelled as nothing.

What is asked of the spelling of characters is in `Spelling.Regular`.

Results:
* `words_toAscii`: spaces that spellings give up part no words.
* `keyChars_eq_joined`, `key_eq_beside`: a key is made of the words of a name, and that of a name
  with the words of two others is made of their keys.
* `spellOut_map_toLower`: letters that differ in case are spelled with letters that do.
* `keyWords_append_run`, `keyWords_of_padded`: white space between two texts keeps their words
  apart, and white space at the ends brings in none.
* `spellOut_withoutControls`: behind other characters than ASCII, controls are nothing.
-/

set_option autoImplicit false

namespace CardContent.Name

open CardContent.Text

/-! ## Texts -/

/-- Whether all characters of a name are ASCII, delete apart. -/
def isAscii (name : String) : Bool :=
  name.toList.all isPlain

/-- A name without the controls of ASCII. -/
def withoutControls (name : String) : String :=
  String.ofList (name.toList.filter fun c => 0x20 ≤ c.toNat)

/-- No control stands in front of the first character that is not ASCII. -/
def Calm (name : String) : Prop :=
  ∀ c ∈ name.toList.takeWhile isPlain, 0x20 ≤ c.toNat

instance (name : String) : Decidable (Calm name) :=
  List.decidableBAll (fun c : Char => 0x20 ≤ c.toNat) _

/-- Two keys side by side, with a space between them if both are there. -/
def beside (k l : String) : String :=
  if k = "" then l else if l = "" then k else k ++ " " ++ l

namespace Spelling

/-! ## Regular spellings -/

/-- What is usual of spellings: the printable characters of ASCII spell themselves, its controls
are spelled as nothing, and white space is spelled as white space or as nothing. -/
structure Regular (spelling : Spelling) : Prop where
  printable : ∀ c, isPlain c = true → 0x20 ≤ c.toNat → spelling.ofChar c = [c]
  control : ∀ c, c.toNat < 0x20 → spelling.ofChar c = []
  blank : ∀ c, isBlank c = true → Blank (spelling.ofChar c)

/-! ## Spellings that give up no space -/

variable (spelling : Spelling)

/-- A text in ASCII with all spaces of its spellings. `plain` says that what stands in front of it
is ASCII. -/
def spellOut (plain : Bool) : List Char → List Char
  | [] => []
  | c :: rest =>
    (if plain && isPlain c then [c] else spelling.ofChar c) ++ spellOut (plain && isPlain c) rest

theorem spellOut_false_cons (c : Char) (rest : List Char) :
    spelling.spellOut false (c :: rest) = spelling.ofChar c ++ spelling.spellOut false rest := rfl

theorem spellOut_append (plain : Bool) (front behind : List Char) :
    spelling.spellOut plain (front ++ behind) =
      spelling.spellOut plain front ++ spelling.spellOut (plain && front.all isPlain) behind := by
  induction front generalizing plain with
  | nil => rw [List.all_nil, Bool.and_true, List.nil_append, spellOut, List.nil_append]
  | cons c rest ih =>
    rw [List.cons_append, spellOut, spellOut, ih, List.all_cons, Bool.and_assoc, List.append_assoc]

theorem spellOut_of_plain {text : List Char} (h : text.all isPlain = true) :
    spelling.spellOut true text = text := by
  induction text with
  | nil => rfl
  | cons c rest ih =>
    obtain ⟨hc, hrest⟩ := Bool.and_eq_true_iff.mp h
    rw [spellOut, hc, Bool.and_self, if_pos rfl, ih hrest, List.singleton_append]

theorem spellOut_true (text : List Char) : spelling.spellOut true text =
    text.takeWhile isPlain ++ spelling.spellOut false (text.dropWhile isPlain) := by
  induction text with
  | nil => rfl
  | cons c rest ih =>
    by_cases hc : isPlain c = true
    · rw [spellOut, hc, Bool.and_self, if_pos rfl, ih, List.takeWhile_cons_of_pos hc,
        List.dropWhile_cons_of_pos hc]
      rfl
    · rw [List.takeWhile_cons_of_neg hc, List.dropWhile_cons_of_neg hc, List.nil_append, spellOut,
        spellOut, Bool.eq_false_iff.mpr hc]
      rfl

/-- A spelling that gives up a space ends in one, and has the end of the text or another space
behind it. -/
theorem spaces_of_losesSpace {s rest : List Char} (h : spelling.losesSpace s rest = true) :
    s = s.dropLast ++ [' '] ∧
      (spelling.spellOut false rest = [] ∨ ∃ more, spelling.spellOut false rest = ' ' :: more) := by
  obtain ⟨hlast, hnext⟩ := Bool.and_eq_true_iff.mp h
  have hlast := beq_iff_eq.mp (Bool.and_eq_true_iff.mp hlast).2
  obtain ⟨kept, rfl⟩ := List.getLast?_eq_some_iff.mp hlast
  refine ⟨by rw [List.dropLast_concat], ?_⟩
  cases rest with
  | nil => exact .inl rfl
  | cons next rest =>
    obtain ⟨more, hmore⟩ := List.head?_eq_some_iff.mp (beq_iff_eq.mp hnext)
    refine .inr ⟨more ++ spelling.spellOut false rest, ?_⟩
    rw [spellOut_false_cons, hmore, List.cons_append]

theorem words_space_append (front : List Char) {behind : List Char}
    (h : behind = [] ∨ ∃ more, behind = ' ' :: more) :
    words (front ++ [' '] ++ behind) = words (front ++ behind) := by
  have hspace : Blank [' '] := List.forall_mem_singleton.mpr rfl
  rcases h with rfl | ⟨more, rfl⟩
  · rw [List.append_nil, List.append_nil, words_append_of_blank hspace]
  · rw [List.append_assoc, words_append_run hspace (List.cons_ne_nil _ _),
      words_append_blank rfl, ← List.singleton_append, words_blank_append hspace]

/-- To spell with or without the spaces that are given up makes no difference to the words. -/
theorem words_respell (front text : List Char) :
    words (front ++ spelling.respell text) = words (front ++ spelling.spellOut false text) := by
  induction text generalizing front with
  | nil => rfl
  | cons c rest ih =>
    rw [respell, spellOut_false_cons, ← List.append_assoc, ← List.append_assoc, ih]
    by_cases hloses : spelling.losesSpace (spelling.ofChar c) rest = true
    · obtain ⟨hspelled, hbehind⟩ := spelling.spaces_of_losesSpace hloses
      rw [if_pos hloses, ← words_space_append _ hbehind, List.append_assoc front, ← hspelled]
    · rw [if_neg hloses]

/-- **Spaces that spellings give up part no words.** -/
theorem words_toAscii (text : List Char) :
    words (spelling.toAscii text) = words (spelling.spellOut true text) := by
  rw [toAscii, words_respell, spellOut_true]

/-! ## The words of keys -/

/-- The words that a text has in a key, behind ASCII or not. -/
def keyWords (plain : Bool) (text : List Char) : List (List Char) :=
  (words (spelling.spellOut plain text)).map (List.map Char.toLower)

theorem ne_nil_of_mem_keyWords {plain : Bool} {text word : List Char}
    (h : word ∈ spelling.keyWords plain text) : word ≠ [] := by
  obtain ⟨spelled, hspelled, rfl⟩ := List.mem_map.mp h
  exact fun hnil => (isWord_of_mem_words hspelled).ne_nil (List.map_eq_nil_iff.mp hnil)

/-- **A key is made of the words** that its name has. -/
theorem keyChars_eq_joined (name : List Char) :
    spelling.keyChars name = [' '].intercalate (spelling.keyWords true name) := by
  rw [keyChars, words_toAscii, map_intercalate]
  rfl

theorem key_eq_of_keyWords_eq {a b : String}
    (h : spelling.keyWords true a.toList = spelling.keyWords true b.toList) :
    spelling.key a = spelling.key b := by
  rw [key, key, keyChars_eq_joined, keyChars_eq_joined, h]

theorem key_eq_empty_iff {name : String} :
    spelling.key name = "" ↔ spelling.keyWords true name.toList = [] := by
  rw [key, String.ofList_eq_empty_iff, keyChars_eq_joined]
  constructor
  · intro h
    cases hwords : spelling.keyWords true name.toList with
    | nil => rfl
    | cons word rest =>
      have hword : word ∈ spelling.keyWords true name.toList := hwords ▸ List.mem_cons_self
      refine absurd ?_ (spelling.ne_nil_of_mem_keyWords hword)
      rw [hwords] at h
      cases rest with
      | nil => rwa [List.intercalate_singleton] at h
      | cons next rest =>
        rw [List.intercalate_cons_cons, List.append_assoc, List.append_eq_nil_iff] at h
        exact h.1
  · intro h
    rw [h]
    rfl

/-- **A name with the words of two others** has their keys side by side. -/
theorem key_eq_beside {name a b : String} (h : spelling.keyWords true name.toList =
    spelling.keyWords true a.toList ++ spelling.keyWords true b.toList) :
    spelling.key name = beside (spelling.key a) (spelling.key b) := by
  by_cases ha : spelling.keyWords true a.toList = []
  · rw [beside, if_pos (spelling.key_eq_empty_iff.mpr ha)]
    exact spelling.key_eq_of_keyWords_eq (by rw [h, ha, List.nil_append])
  · rw [beside, if_neg fun hkey => ha (spelling.key_eq_empty_iff.mp hkey)]
    by_cases hb : spelling.keyWords true b.toList = []
    · rw [if_pos (spelling.key_eq_empty_iff.mpr hb)]
      exact spelling.key_eq_of_keyWords_eq (by rw [h, hb, List.append_nil])
    · rw [if_neg fun hkey => hb (spelling.key_eq_empty_iff.mp hkey), ← String.toList_inj,
        String.toList_append, String.toList_append, toList_key, toList_key, toList_key,
        keyChars_eq_joined, keyChars_eq_joined, keyChars_eq_joined, h, intercalate_append _ hb ha]
      rfl

/-! ## Case -/

theorem isPlain_toLower_eq (c : Char) : isPlain c.toLower = isPlain c := by
  by_cases hc : c.isUpper = true
  · obtain ⟨-, hhigh, -⟩ := toNat_toLower_of_isUpper hc
    have hplain : isPlain c = true := decide_eq_true (by omega)
    rw [hplain, isPlain_toLower hplain]
  · rw [Char.toLower_eq_of_not_isUpper hc]

theorem isBlank_toLower (c : Char) : isBlank c.toLower = isBlank c := by
  cases hblank : isBlank c with
  | false => exact not_blank_toLower c hblank
  | true =>
    have hc : c.isUpper = false := by
      cases hupper : c.isUpper with
      | false => rfl
      | true =>
        obtain ⟨hlow, hhigh, -⟩ := toNat_toLower_of_isUpper hupper
        simp only [isBlank, blankRanges, List.any_cons, List.any_nil, Bool.or_false,
          Bool.or_eq_true, Bool.and_eq_true, decide_eq_true_eq] at hblank
        omega
    rw [Char.toLower_eq_of_not_isUpper (Bool.eq_false_iff.mp hc), hblank]

variable {spelling}

/-- **Letters that differ in case** are spelled with letters that do. -/
theorem Regular.spellOut_map_toLower (h : spelling.Regular) (plain : Bool) (text : List Char) :
    (spelling.spellOut plain (text.map Char.toLower)).map Char.toLower =
      (spelling.spellOut plain text).map Char.toLower := by
  induction text generalizing plain with
  | nil => rfl
  | cons c rest ih =>
    rw [List.map_cons, spellOut, spellOut, List.map_append, List.map_append, isPlain_toLower_eq, ih]
    congr 1
    by_cases hc : c.isUpper = true
    · obtain ⟨hlow, hhigh, hcode⟩ := toNat_toLower_of_isUpper hc
      have hplain : isPlain c = true := decide_eq_true (by omega)
      have hplain' : isPlain c.toLower = true := isPlain_toLower hplain
      rw [h.printable c hplain (by omega), h.printable c.toLower hplain' (by omega), ite_self,
        ite_self, List.map_singleton, List.map_singleton, Char.toLower_toLower_eq_toLower]
    · rw [Char.toLower_eq_of_not_isUpper hc]

theorem Regular.keyWords_map_toLower (h : spelling.Regular) (plain : Bool) (text : List Char) :
    spelling.keyWords plain (text.map Char.toLower) = spelling.keyWords plain text := by
  unfold keyWords
  rw [← words_map isBlank_toLower, ← words_map isBlank_toLower, h.spellOut_map_toLower]

/-! ## White space -/

theorem Regular.blank_spellOut (h : spelling.Regular) {run : List Char} (hrun : Blank run)
    (plain : Bool) : Blank (spelling.spellOut plain run) := by
  induction run generalizing plain with
  | nil => exact blank_nil
  | cons c rest ih =>
    obtain ⟨hc, hrest⟩ := List.forall_mem_cons.mp hrun
    rw [spellOut]
    refine List.forall_mem_append.mpr ⟨?_, ih hrest _⟩
    split
    · exact List.forall_mem_singleton.mpr hc
    · exact h.blank c hc

/-- **White space between two texts** keeps their words apart if anything is spelled for it. -/
theorem Regular.keyWords_append_run (h : spelling.Regular) {run : List Char} (hrun : Blank run)
    (plain : Bool) (front behind : List Char)
    (hne : spelling.spellOut (plain && front.all isPlain) run ≠ []) :
    spelling.keyWords plain (front ++ (run ++ behind)) =
      spelling.keyWords plain front ++
        spelling.keyWords (plain && front.all isPlain && run.all isPlain) behind := by
  unfold keyWords
  rw [spellOut_append, spellOut_append, words_append_run (h.blank_spellOut hrun _) hne,
    List.map_append]

/-- White space at the ends of a text brings in no words. -/
theorem Regular.keyWords_of_padded (h : spelling.Regular) {before behind : List Char}
    (hbefore : Blank before) (hbehind : Blank behind) (plain : Bool) (core : List Char) :
    spelling.keyWords plain (before ++ core ++ behind) =
      spelling.keyWords (plain && before.all isPlain) core := by
  unfold keyWords
  rw [spellOut_append, words_append_of_blank (h.blank_spellOut hbehind _), spellOut_append,
    words_blank_append (h.blank_spellOut hbefore _)]

/-! ## Controls -/

/-- **Behind other characters than ASCII, controls are nothing.** -/
theorem Regular.spellOut_withoutControls (h : spelling.Regular) (plain : Bool) (text : List Char) :
    spelling.spellOut plain (text.filter fun c => 0x20 ≤ c.toNat) =
      spelling.spellOut false text := by
  induction text generalizing plain with
  | nil => rfl
  | cons c rest ih =>
    rw [List.filter_cons]
    by_cases hc : 0x20 ≤ c.toNat
    · rw [if_pos (decide_eq_true hc), spellOut, spellOut, ih]
      congr 1
      cases hplain : plain && isPlain c with
      | false => rfl
      | true => rw [h.printable c (Bool.and_eq_true_iff.mp hplain).2 hc]; rfl
    · have hcontrol : ¬(decide (0x20 ≤ c.toNat) = true) := fun hdec => hc (of_decide_eq_true hdec)
      rw [if_neg hcontrol, ih, spellOut_false_cons, h.control c (Nat.lt_of_not_le hc),
        List.nil_append]

theorem Regular.keyWords_withoutControls (h : spelling.Regular) (plain : Bool) (name : String) :
    spelling.keyWords plain (withoutControls name).toList =
      spelling.keyWords false name.toList := by
  unfold keyWords
  rw [withoutControls, String.toList_ofList, h.spellOut_withoutControls]

/-- Without controls in front, it makes no difference whether ASCII stands in front of a text. -/
theorem Regular.spellOut_of_calm (h : spelling.Regular) (plain : Bool) {text : List Char}
    (hcalm : ∀ c ∈ text.takeWhile isPlain, 0x20 ≤ c.toNat) :
    spelling.spellOut plain text = spelling.spellOut false text := by
  induction text generalizing plain with
  | nil => rfl
  | cons c rest ih =>
    rw [spellOut, spellOut]
    by_cases hc : isPlain c = true
    · rw [List.takeWhile_cons_of_pos hc] at hcalm
      obtain ⟨hcode, hrest⟩ := List.forall_mem_cons.mp hcalm
      rw [h.printable c hc hcode, ite_self, ite_self, ih _ hrest, Bool.false_and]
    · rw [Bool.eq_false_iff.mpr hc, Bool.and_false, Bool.and_false]

theorem Regular.keyWords_of_calm (h : spelling.Regular) (plain : Bool) {name : String}
    (hcalm : Calm name) :
    spelling.keyWords plain name.toList = spelling.keyWords false name.toList := by
  unfold keyWords
  rw [h.spellOut_of_calm plain hcalm]

theorem Regular.key_withoutControls (h : spelling.Regular) {name : String} (hcalm : Calm name) :
    spelling.key (withoutControls name) = spelling.key name :=
  spelling.key_eq_of_keyWords_eq (by rw [h.keyWords_withoutControls, h.keyWords_of_calm true hcalm])

end Spelling

end CardContent.Name
