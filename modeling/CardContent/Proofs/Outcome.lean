import Mathlib.Data.List.Forall2

/-!
# Steps that may fail, one after the other

Results:
* `bind_eq_ok_iff`: two steps give a value exactly if the first does and the second does with it.
* `exists_eq_error_iff`: what gives no value fails.
* `mapM_eq_ok_iff`: a step taken for each of a list gives a list of values exactly if each of them
  gives the value in the same place.
* `bind_eq_error_iff`, `mapM_eq_error_iff`: the error is that of the first step that fails.
* `bind_mapError`: what an error is turned into may be said of each step.
-/

set_option autoImplicit false

namespace CardContent

variable {ε α β : Type}

theorem bind_eq_ok_iff {x : Except ε α} {f : α → Except ε β} {b : β} :
    x >>= f = .ok b ↔ ∃ a, x = .ok a ∧ f a = .ok b := by
  constructor
  · intro h
    cases x with
    | error fault => cases h
    | ok a => exact ⟨a, rfl, h⟩
  · rintro ⟨a, rfl, h⟩
    exact h

/-- What gives no value fails. -/
theorem exists_eq_error_iff {x : Except ε α} : (∃ e, x = .error e) ↔ ¬∃ a, x = .ok a := by
  cases x <;> simp

theorem mapM_eq_ok_iff {f : α → Except ε β} : ∀ {xs : List α} {ys : List β},
    xs.mapM f = .ok ys ↔ List.Forall₂ (fun x y => f x = .ok y) xs ys
  | [], ys => by
    rw [List.mapM_nil, List.forall₂_nil_left_iff]
    exact ⟨fun h => by cases h; rfl, fun h => by rw [h]; rfl⟩
  | x :: xs, ys => by
    rw [List.mapM_cons, bind_eq_ok_iff, List.forall₂_cons_left_iff]
    constructor
    · rintro ⟨y, hy, h⟩
      obtain ⟨zs, hzs, h⟩ := bind_eq_ok_iff.mp h
      cases h
      exact ⟨y, zs, hy, mapM_eq_ok_iff.mp hzs, rfl⟩
    · rintro ⟨y, zs, hy, hzs, rfl⟩
      exact ⟨y, hy, bind_eq_ok_iff.mpr ⟨zs, mapM_eq_ok_iff.mpr hzs, rfl⟩⟩

/-- Two steps fail if the first does, or if the second does behind it. -/
theorem bind_eq_error_iff {x : Except ε α} {f : α → Except ε β} {e : ε} :
    x >>= f = .error e ↔ x = .error e ∨ ∃ a, x = .ok a ∧ f a = .error e := by
  constructor
  · intro h
    cases x with
    | error fault => cases h; exact Or.inl rfl
    | ok a => exact Or.inr ⟨a, rfl, h⟩
  · rintro (rfl | ⟨a, rfl, h⟩)
    · rfl
    · exact h

theorem mapM_eq_error_iff {f : α → Except ε β} {e : ε} : ∀ {xs : List α},
    xs.mapM f = .error e ↔ ∃ front x back, xs = front ++ x :: back ∧
      (∀ y ∈ front, ∃ b, f y = .ok b) ∧ f x = .error e
  | [] => by
    rw [List.mapM_nil]
    constructor
    · intro h; cases h
    · rintro ⟨front, x, back, h, -⟩
      exact absurd h.symm (List.append_ne_nil_of_right_ne_nil front (List.cons_ne_nil x back))
  | x :: xs => by
    rw [List.mapM_cons, bind_eq_error_iff]
    constructor
    · rintro (h | ⟨b, hb, h⟩)
      · exact ⟨[], x, xs, rfl, fun _ hy => absurd hy List.not_mem_nil, h⟩
      · rcases bind_eq_error_iff.mp h with h | ⟨bs, -, h⟩
        · obtain ⟨front, z, back, rfl, hfront, hz⟩ := mapM_eq_error_iff.mp h
          exact ⟨x :: front, z, back, rfl, List.forall_mem_cons.mpr ⟨⟨b, hb⟩, hfront⟩, hz⟩
        · cases h
    · rintro ⟨front, z, back, heq, hfront, hz⟩
      cases front with
      | nil =>
        obtain ⟨rfl, rfl⟩ := List.cons.inj heq
        exact Or.inl hz
      | cons y front =>
        obtain ⟨rfl, rfl⟩ := List.cons.inj heq
        obtain ⟨⟨b, hb⟩, hfront⟩ := List.forall_mem_cons.mp hfront
        have hrest := mapM_eq_error_iff.mpr ⟨front, z, back, rfl, hfront, hz⟩
        exact Or.inr ⟨b, hb, bind_eq_error_iff.mpr (Or.inl hrest)⟩

/-- Two steps whose errors are turned into others. -/
theorem bind_mapError {ε' : Type} (x : Except ε α) (f : α → Except ε β) (g : ε → ε') :
    (x.mapError g >>= fun a => (f a).mapError g) = (x >>= f).mapError g := by
  cases x <;> rfl

theorem mapError_eq_self {x : Except ε α} {g : ε → ε} (h : ∀ e, x = .error e → g e = e) :
    x.mapError g = x := by
  cases x with
  | error e => exact congrArg Except.error (h e rfl)
  | ok a => rfl

/-- There are values exactly if there is one for each. -/
theorem exists_mapM_eq_ok_iff {f : α → Except ε β} {xs : List α} :
    (∃ ys, xs.mapM f = .ok ys) ↔ ∀ x ∈ xs, ∃ y, f x = .ok y := by
  constructor
  · rintro ⟨ys, h⟩
    have hsteps := mapM_eq_ok_iff.mp h
    clear h
    induction hsteps with
    | nil => exact fun x hx => absurd hx List.not_mem_nil
    | cons hy _ ih => exact List.forall_mem_cons.mpr ⟨⟨_, hy⟩, ih⟩
  · intro h
    cases hxs : xs.mapM f with
    | ok ys => exact ⟨ys, rfl⟩
    | error e =>
      obtain ⟨front, x, back, rfl, -, hx⟩ := mapM_eq_error_iff.mp hxs
      obtain ⟨y, hy⟩ := h x (List.mem_append_right front List.mem_cons_self)
      rw [hx] at hy
      cases hy

/-- What every value of a step has, all values of the steps have. -/
theorem forall_mem_of_mapM {f : α → Except ε β} {P : β → Prop}
    (hf : ∀ x y, f x = .ok y → P y) {xs : List α} {ys : List β} (h : xs.mapM f = .ok ys) :
    ∀ y ∈ ys, P y := by
  have hsteps := mapM_eq_ok_iff.mp h
  clear h
  induction hsteps with
  | nil => exact fun y hy => absurd hy List.not_mem_nil
  | cons hy _ ih => exact List.forall_mem_cons.mpr ⟨hf _ _ hy, ih⟩

end CardContent
