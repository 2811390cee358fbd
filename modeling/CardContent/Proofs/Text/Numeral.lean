import CardContent.Proofs.Text.Trim
import CardContent.Text.Numeral

/-!
# What numerals look like

* `Digits text n` is a run of at least one digit, with the value `n`; `Unsigned` and `Signed` are
  such a run behind a sign, if there is one.

Results:
* `uint64?_eq_some_iff`, `uint32?_eq_some_iff`, `int32?_eq_some_iff`: a text reads as a word exactly
  if it is a numeral of that value. That the value fits is part of there being such a word.
* `uint64?_ofNat`: a printed word reads back.
-/

set_option autoImplicit false

namespace CardContent.Numeral

/-- A run of at least one digit, with the value `n`. -/
def Digits (text : List Char) (n : Nat) : Prop :=
  text ≠ [] ∧ (∀ c ∈ text, c.isDigit = true) ∧ Nat.ofDigitChars 10 text 0 = n

/-- Digits, with or without `+` in front. -/
inductive Unsigned : List Char → Nat → Prop where
  | plain {text : List Char} {n : Nat} (h : Digits text n) : Unsigned text n
  | plus {text : List Char} {n : Nat} (h : Digits text n) : Unsigned ('+' :: text) n

/-- Digits, with or without a sign in front. -/
inductive Signed : List Char → Int → Prop where
  | plain {text : List Char} {n : Nat} (h : Digits text n) : Signed text n
  | plus {text : List Char} {n : Nat} (h : Digits text n) : Signed ('+' :: text) n
  | minus {text : List Char} {n : Nat} (h : Digits text n) : Signed ('-' :: text) (-n)

/-! ## Reading -/

theorem digits?_eq_some_iff {cs : List Char} {n : Nat} : digits? cs = some n ↔ Digits cs n := by
  unfold digits? Digits
  split
  · rename_i h
    simp only [Bool.and_eq_true, Bool.not_eq_true', List.isEmpty_eq_false_iff,
      List.all_eq_true] at h
    constructor
    · intro hn; exact ⟨h.1, h.2, Option.some.inj hn⟩
    · rintro ⟨-, -, rfl⟩; rfl
  · rename_i h
    simp only [Bool.and_eq_true, Bool.not_eq_true', List.isEmpty_eq_false_iff,
      List.all_eq_true] at h
    constructor
    · intro hn; cases hn
    · rintro ⟨h1, h2, -⟩; exact absurd ⟨h1, h2⟩ h

/-- A sign is no digit. -/
theorem not_digits_sign {c : Char} (hc : c.isDigit = false) {cs : List Char} {n : Nat} :
    ¬ Digits (c :: cs) n := by
  rintro ⟨-, h, -⟩
  rw [h c List.mem_cons_self] at hc
  cases hc

theorem unsigned?_eq_some_iff {cs : List Char} {n : Nat} :
    unsigned? cs = some n ↔ Unsigned cs n := by
  constructor
  · intro h
    unfold unsigned? at h
    split at h
    · exact .plus (digits?_eq_some_iff.mp h)
    · exact .plain (digits?_eq_some_iff.mp h)
  · intro h
    cases h with
    | plus h => exact digits?_eq_some_iff.mpr h
    | plain h =>
      unfold unsigned?
      split
      · exact absurd h (not_digits_sign (by decide))
      · exact digits?_eq_some_iff.mpr h

theorem signed?_eq_some_iff {cs : List Char} {z : Int} : signed? cs = some z ↔ Signed cs z := by
  constructor
  · intro h
    unfold signed? at h
    split at h
    all_goals
      obtain ⟨n, hn, rfl⟩ := Option.map_eq_some_iff.mp h
      have hd := digits?_eq_some_iff.mp hn
    · exact .minus hd
    · exact .plus hd
    · exact .plain hd
  · intro h
    cases h with
    | minus h => exact Option.map_eq_some_iff.mpr ⟨_, digits?_eq_some_iff.mpr h, rfl⟩
    | plus h => exact Option.map_eq_some_iff.mpr ⟨_, digits?_eq_some_iff.mpr h, rfl⟩
    | plain h =>
      unfold signed?
      split
      · exact absurd h (not_digits_sign (by decide))
      · exact absurd h (not_digits_sign (by decide))
      · exact Option.map_eq_some_iff.mpr ⟨_, digits?_eq_some_iff.mpr h, rfl⟩

/-- **A text reads as a word of 64 bits exactly if it is an unsigned numeral of its value.** -/
theorem uint64?_eq_some_iff {cs : List Char} {i : UInt64} :
    uint64? cs = some i ↔ Unsigned cs i.toNat := by
  unfold uint64?
  rw [Option.bind_eq_some_iff]
  constructor
  · rintro ⟨n, hn, h⟩
    split at h
    · rename_i hlt
      obtain rfl := Option.some.inj h
      rw [UInt64.toNat_ofNat_of_lt' hlt]
      exact unsigned?_eq_some_iff.mp hn
    · cases h
  · intro h
    refine ⟨i.toNat, unsigned?_eq_some_iff.mpr h, ?_⟩
    rw [if_pos i.toNat_lt, UInt64.ofNat_toNat]

/-- **A text reads as a word of 32 bits exactly if it is an unsigned numeral of its value.** -/
theorem uint32?_eq_some_iff {cs : List Char} {i : UInt32} :
    uint32? cs = some i ↔ Unsigned cs i.toNat := by
  unfold uint32?
  rw [Option.bind_eq_some_iff]
  constructor
  · rintro ⟨n, hn, h⟩
    split at h
    · rename_i hlt
      obtain rfl := Option.some.inj h
      rw [UInt32.toNat_ofNat_of_lt' hlt]
      exact unsigned?_eq_some_iff.mp hn
    · cases h
  · intro h
    refine ⟨i.toNat, unsigned?_eq_some_iff.mpr h, ?_⟩
    rw [if_pos i.toNat_lt, UInt32.ofNat_toNat]

/-- **A text reads as a signed word of 32 bits exactly if it is a signed numeral of its value.** -/
theorem int32?_eq_some_iff {cs : List Char} {p : Int32} :
    int32? cs = some p ↔ Signed cs p.toInt := by
  unfold int32?
  rw [Option.bind_eq_some_iff]
  constructor
  · rintro ⟨z, hz, h⟩
    split at h
    · rename_i hr
      obtain rfl := Option.some.inj h
      rw [Int32.toInt_ofInt_of_le hr.1 (Int.lt_add_one_of_le hr.2)]
      exact signed?_eq_some_iff.mp hz
    · cases h
  · intro h
    refine ⟨p.toInt, signed?_eq_some_iff.mpr h, ?_⟩
    rw [if_pos ⟨p.le_toInt, Int.le_of_lt_add_one p.toInt_lt⟩, Int32.ofInt_toInt]

theorem uint64?_eq_none_iff {cs : List Char} :
    uint64? cs = none ↔ ∀ i : UInt64, ¬Unsigned cs i.toNat := by
  simp only [Option.eq_none_iff_forall_ne_some, ne_eq, uint64?_eq_some_iff]

theorem int32?_eq_none_iff {cs : List Char} :
    int32? cs = none ↔ ∀ p : Int32, ¬Signed cs p.toInt := by
  simp only [Option.eq_none_iff_forall_ne_some, ne_eq, int32?_eq_some_iff]

/-! ## Printing -/

theorem digits_ofNat (n : Nat) : Digits (ofNat n) n :=
  ⟨Nat.toDigits_ne_nil, fun _ hc => Nat.isDigit_of_mem_toDigits (by decide) (by decide) hc,
    Nat.ofDigitChars_ten_toDigits⟩

theorem signed_ofInt (z : Int) : Signed (ofInt z) z := by
  cases z with
  | ofNat n => exact .plain (digits_ofNat n)
  | negSucc n => exact .minus (digits_ofNat (n + 1))

theorem signed_intText (z : Int) : Signed (intText z).toList z := by
  rw [intText, String.toList_ofList]
  exact signed_ofInt z

/-- **A printed word of 64 bits reads back.** -/
theorem uint64?_ofNat (i : UInt64) : uint64? (ofNat i.toNat) = some i :=
  uint64?_eq_some_iff.mpr (.plain (digits_ofNat _))

/-! ## The characters of a numeral -/

theorem Unsigned.signed {cs : List Char} {n : Nat} (h : Unsigned cs n) : Signed cs n := by
  cases h with
  | plain h => exact .plain h
  | plus h => exact .plus h

theorem Signed.ne_nil {cs : List Char} {z : Int} (h : Signed cs z) : cs ≠ [] := by
  cases h with
  | plain h => exact h.1
  | plus _ => exact List.cons_ne_nil _ _
  | minus _ => exact List.cons_ne_nil _ _

/-- What holds of the digits and the signs holds of every character of a numeral. -/
theorem Signed.forall_mem {P : Char → Prop} (hdigit : ∀ c : Char, c.isDigit = true → P c)
    (hplus : P '+') (hminus : P '-') {cs : List Char} {z : Int} (h : Signed cs z) :
    ∀ c ∈ cs, P c := by
  intro c hc
  cases h with
  | plain h => exact hdigit c (h.2.1 c hc)
  | plus h =>
    rcases List.mem_cons.mp hc with rfl | hc
    · exact hplus
    · exact hdigit c (h.2.1 c hc)
  | minus h =>
    rcases List.mem_cons.mp hc with rfl | hc
    · exact hminus
    · exact hdigit c (h.2.1 c hc)

theorem isBlank_of_isDigit {c : Char} (h : c.isDigit = true) : Text.isBlank c = false := by
  simp only [Char.isDigit, Bool.and_eq_true, decide_eq_true_eq, ge_iff_le, UInt32.le_iff_toNat_le,
    Char.toNat_val] at h
  have h0 : '0'.toNat = 48 := rfl
  have h9 : '9'.toNat = 57 := rfl
  simp only [Text.isBlank, Text.blankRanges, List.any_cons, List.any_nil, Bool.or_false,
    Bool.or_eq_false_iff, Bool.and_eq_false_iff, decide_eq_false_iff_not]
  omega

theorem Signed.not_blank {cs : List Char} {z : Int} (h : Signed cs z) :
    ∀ c ∈ cs, Text.isBlank c = false :=
  h.forall_mem (fun _ hc => isBlank_of_isDigit hc) (by decide) (by decide)

/-- White space is no part of a numeral. -/
theorem Signed.trimmed {cs : List Char} {z : Int} (h : Signed cs z) : Text.Trimmed cs :=
  ⟨fun c hc => h.not_blank c (List.mem_of_mem_head? hc),
    fun c hc => h.not_blank c (List.mem_of_mem_getLast? hc)⟩

end CardContent.Numeral
