import CardContent.Text.Blank
import Mathlib.Data.List.DropRight
import Mathlib.Data.List.TakeWhile

/-!
# Trimming takes white space off the ends and nothing else

* `Blank` is a text of white space only and `Trimmed` one that has none at its ends.
* `Padded core text` says that `text` is `core` with white space around it.

Results:
* `padded_trim`: every text is its trimmed form with white space around it.
* `trim_of_padded`: white space around a trimmed text is exactly what trimming takes away.
-/

set_option autoImplicit false

namespace CardContent.Text

/-- A text of white space only. -/
def Blank (cs : List Char) : Prop :=
  ∀ c ∈ cs, isBlank c = true

/-- A text with no white space at its two ends. -/
structure Trimmed (cs : List Char) : Prop where
  head : ∀ c ∈ cs.head?, isBlank c = false
  last : ∀ c ∈ cs.getLast?, isBlank c = false

/-- `text` is `core` with white space around it. -/
def Padded (core text : List Char) : Prop :=
  ∃ before behind, Blank before ∧ Blank behind ∧ text = before ++ core ++ behind

theorem blank_nil : Blank [] := fun _ hc => absurd hc List.not_mem_nil

theorem trimmed_nil : Trimmed [] where
  head := fun _ hc => absurd hc (by simp)
  last := fun _ hc => absurd hc (by simp)

theorem padded_refl (cs : List Char) : Padded cs cs :=
  ⟨[], [], blank_nil, blank_nil, by simp⟩

/-- Dropping from the end is the library's. -/
theorem dropEndWhile_eq_rdropWhile {α : Type} (p : α → Bool) (xs : List α) :
    dropEndWhile p xs = xs.rdropWhile p := rfl

/-- Nothing is dropped if the last member does not satisfy `p`. -/
theorem dropEndWhile_of_last {α : Type} {p : α → Bool} {xs : List α}
    (h : ∀ x ∈ xs.getLast?, p x = false) : dropEndWhile p xs = xs := by
  rw [dropEndWhile_eq_rdropWhile, List.rdropWhile_eq_self_iff]
  intro hne
  rw [h _ (List.getLast?_eq_some_getLast hne)]
  exact Bool.false_ne_true

theorem dropWhile_of_blank {cs : List Char} (h : Blank cs) : cs.dropWhile isBlank = [] :=
  List.dropWhile_eq_nil_iff.mpr h

theorem dropWhile_of_head {cs : List Char} (h : ∀ c ∈ cs.head?, isBlank c = false) :
    cs.dropWhile isBlank = cs := by
  cases cs with
  | nil => rfl
  | cons c rest =>
    have hc : isBlank c = false := h c rfl
    rw [List.dropWhile_cons_of_neg (by simp [hc])]

/-- Characters that a predicate tells apart are different. -/
theorem ne_of_pred {p : Char → Bool} {c x : Char} (hc : p c = true) (hx : p x = false) : c ≠ x := by
  rintro rfl
  rw [hc] at hx
  cases hx

/-! ## Padding -/

/-- What holds of white space and of the core holds of every character. -/
theorem Padded.forall_mem {P : Char → Prop} {core text : List Char} (h : Padded core text)
    (hblank : ∀ c, isBlank c = true → P c) (hcore : ∀ c ∈ core, P c) : ∀ c ∈ text, P c := by
  obtain ⟨before, behind, hb, he, rfl⟩ := h
  intro c hc
  rcases List.mem_append.mp hc with hc | hc
  · rcases List.mem_append.mp hc with hc | hc
    · exact hblank c (hb c hc)
    · exact hcore c hc
  · exact hblank c (he c hc)

theorem Padded.append_left {core text before : List Char} (h : Padded core text)
    (hbefore : Blank before) : Padded core (before ++ text) := by
  obtain ⟨first, behind, hfirst, hbehind, rfl⟩ := h
  refine ⟨before ++ first, behind, ?_, hbehind, by simp⟩
  exact fun c hc => (List.mem_append.mp hc).elim (hbefore c) (hfirst c)

theorem Padded.append_right {core text behind : List Char} (h : Padded core text)
    (hbehind : Blank behind) : Padded core (text ++ behind) := by
  obtain ⟨before, last, hbefore, hlast, rfl⟩ := h
  refine ⟨before, last ++ behind, hbefore, ?_, by simp⟩
  exact fun c hc => (List.mem_append.mp hc).elim (hlast c) (hbehind c)

theorem trim_blank_append {before : List Char} (h : Blank before) (cs : List Char) :
    trim (before ++ cs) = trim cs := by
  unfold trim
  rw [List.dropWhile_append_of_pos h]

theorem trim_append_blank {behind : List Char} (h : Blank behind) (cs : List Char) :
    trim (cs ++ behind) = trim cs := by
  unfold trim
  rw [List.dropWhile_append]
  split
  · rename_i he
    rw [List.isEmpty_iff.mp he, dropWhile_of_blank h]
  · exact dropEndWhile_append_of_all isBlank h

theorem trim_eq_of_padded {core text : List Char} (h : Padded core text) :
    trim text = trim core := by
  obtain ⟨before, behind, hb, he, rfl⟩ := h
  rw [trim_append_blank he, trim_blank_append hb]

/-! ## The trimmed form -/

theorem trim_of_trimmed {cs : List Char} (h : Trimmed cs) : trim cs = cs := by
  unfold trim
  rw [dropWhile_of_head h.head, dropEndWhile_of_last h.last]

/-- **White space around a trimmed text is what trimming takes away.** -/
theorem trim_of_padded {core text : List Char} (h : Padded core text) (hc : Trimmed core) :
    trim text = core := by
  rw [trim_eq_of_padded h, trim_of_trimmed hc]

/-- What trimming takes away, and what it leaves. -/
theorem eq_append_trim_append (cs : List Char) :
    cs = cs.takeWhile isBlank ++ trim cs ++ (cs.dropWhile isBlank).rtakeWhile isBlank := by
  unfold trim
  rw [dropEndWhile_eq_rdropWhile, List.append_assoc, List.rdropWhile_append_rtakeWhile,
    List.takeWhile_append_dropWhile]

/-- **Every text is its trimmed form with white space around it.** -/
theorem padded_trim (cs : List Char) : Padded (trim cs) cs :=
  ⟨cs.takeWhile isBlank, (cs.dropWhile isBlank).rtakeWhile isBlank,
    fun _ hc => List.mem_takeWhile_imp hc, fun _ hc => List.mem_rtakeWhile_imp hc,
    eq_append_trim_append cs⟩

theorem trimmed_trim (cs : List Char) : Trimmed (trim cs) := by
  have hp : trim cs <+: cs.dropWhile isBlank := isPrefix_dropEndWhile isBlank _
  constructor
  · intro c hc
    have hd : c ∈ (cs.dropWhile isBlank).head? := by
      obtain ⟨rest, hr⟩ := hp
      rw [← hr]
      cases ht : trim cs with
      | nil => rw [ht] at hc; exact absurd hc (by simp)
      | cons x xs => rw [ht] at hc; exact hc
    have := List.head?_dropWhile_not isBlank cs
    rw [Option.mem_def.mp hd] at this
    exact this
  · intro c hc
    have hne : trim cs ≠ [] := by
      intro h
      rw [h] at hc
      exact absurd hc (by simp)
    have hl := List.rdropWhile_last_not isBlank (cs.dropWhile isBlank) hne
    have hcl : (trim cs).getLast hne = c := by
      rw [List.getLast?_eq_some_getLast hne] at hc
      exact Option.some.inj hc
    rw [← hcl]
    exact Bool.eq_false_iff.mpr hl

theorem trim_eq_self_iff {cs : List Char} : trim cs = cs ↔ Trimmed cs := by
  constructor
  · intro h
    rw [← h]
    exact trimmed_trim cs
  · exact trim_of_trimmed

instance (cs : List Char) : Decidable (Trimmed cs) :=
  decidable_of_iff (trim cs = cs) trim_eq_self_iff

instance (cs : List Char) : Decidable (Blank cs) :=
  List.decidableBAll (fun c => isBlank c = true) cs

theorem trim_eq_nil_iff {cs : List Char} : trim cs = [] ↔ Blank cs := by
  constructor
  · intro h
    have hp := padded_trim cs
    rw [h] at hp
    exact hp.forall_mem (fun _ hc => hc) fun c hc => absurd hc List.not_mem_nil
  · intro h
    have := trim_append_blank h []
    rwa [List.nil_append] at this

/-- A text that begins with a character that is no white space keeps it. -/
theorem head?_trim_of_head {c : Char} (hc : isBlank c = false) (rest : List Char) :
    (trim (c :: rest)).head? = some c := by
  have hprefix : trim (c :: rest) <+: c :: rest := by
    have hdrop : (c :: rest).dropWhile isBlank = c :: rest :=
      dropWhile_of_head fun x hx => by rwa [← Option.some.inj hx]
    unfold trim
    rw [hdrop]
    exact isPrefix_dropEndWhile isBlank _
  obtain ⟨behind, hbehind⟩ := hprefix
  cases htrim : trim (c :: rest) with
  | nil =>
    have hblank := trim_eq_nil_iff.mp htrim c List.mem_cons_self
    rw [hc] at hblank
    cases hblank
  | cons x xs =>
    rw [htrim] at hbehind
    exact congrArg some (List.cons.inj hbehind).1

end CardContent.Text
