import CardContent.Proofs.Text.Numeral

/-!
# The shortest spelling of a numeral

Many numerals have the same value: zeros may stand in front, and a sign where none is needed. The
shortest of them is found on the text alone, without its value.

* `shortest text` drops what can be dropped of a numeral, and leaves any other text as it is.

Results:
* `ofNat_eq_withoutZeros`: digits without the zeros in front are the digits of their value.
* `shortest_of_signed`: the shortest spelling is how the value is printed.
* `shortest_shortest`: it cannot be shortened again.
-/

set_option autoImplicit false

namespace CardContent.Numeral

/-- A run of at least one digit. -/
def isDigits (text : List Char) : Bool :=
  !text.isEmpty && text.all Char.isDigit

/-- Digits without the zeros in front, the last of them kept if there is nothing else. -/
def withoutZeros (digits : List Char) : List Char :=
  match digits.dropWhile (· == '0') with
  | [] => ['0']
  | rest => rest

/-- Digits behind `-`, unless they are those of 0. -/
def negated (digits : List Char) : List Char :=
  if digits = ['0'] then digits else '-' :: digits

/-- The shortest spelling of a numeral: without `+`, without zeros in front, and without `-` if it
is 0. What is no numeral stays as it is. -/
def shortest : List Char → List Char
  | '+' :: digits => if isDigits digits then withoutZeros digits else '+' :: digits
  | '-' :: digits => if isDigits digits then negated (withoutZeros digits) else '-' :: digits
  | digits => if isDigits digits then withoutZeros digits else digits

theorem isDigits_iff {text : List Char} : isDigits text = true ↔ ∃ n, Digits text n := by
  simp only [isDigits, Digits, Bool.and_eq_true, Bool.not_eq_true', List.isEmpty_eq_false_iff,
    List.all_eq_true]
  constructor
  · rintro ⟨hne, hall⟩
    exact ⟨_, hne, hall, rfl⟩
  · rintro ⟨n, hne, hall, -⟩
    exact ⟨hne, hall⟩

/-! ## Values -/

theorem exists_digitChar {c : Char} (h : c.isDigit = true) : ∃ d < 10, c = Nat.digitChar d := by
  obtain ⟨hlow, hhigh⟩ := Char.isDigit_iff_toNat.mp h
  have h0 : '0'.toNat = 48 := rfl
  have h9 : '9'.toNat = 57 := rfl
  have hlt : c.toNat - 48 < 10 := by omega
  refine ⟨c.toNat - 48, hlt, Char.toNat_inj.mp ?_⟩
  rw [Nat.toNat_digitChar_of_lt_ten hlt]
  omega

/-- **Digits behind a number that is not 0 are its further digits.** -/
theorem ofNat_ofDigitChars : ∀ {digits : List Char} {n : Nat}, 0 < n →
    (∀ c ∈ digits, c.isDigit = true) → ofNat (Nat.ofDigitChars 10 digits n) = ofNat n ++ digits
  | [], n, _, _ => by rw [Nat.ofDigitChars_nil, List.append_nil]
  | c :: digits, n, hn, h => by
    obtain ⟨hc, hdigits⟩ := List.forall_mem_cons.mp h
    obtain ⟨d, hd, rfl⟩ := exists_digitChar hc
    have hnext : ofNat (10 * n + d) = ofNat n ++ [d.digitChar] := by
      rw [ofNat, ← Nat.toDigits_append_toDigits (by decide) hn hd, Nat.toDigits_of_lt_base hd]
      rfl
    rw [Nat.ofDigitChars_cons_digitChar_of_lt_ten hd, ofNat_ofDigitChars (by omega) hdigits, hnext,
      List.append_assoc, List.singleton_append]

/-- **Digits without the zeros in front are the digits of their value.** -/
theorem ofNat_eq_withoutZeros : ∀ {digits : List Char}, (∀ c ∈ digits, c.isDigit = true) →
    ofNat (Nat.ofDigitChars 10 digits 0) = withoutZeros digits
  | [], _ => rfl
  | c :: digits, h => by
    obtain ⟨hc, hdigits⟩ := List.forall_mem_cons.mp h
    obtain ⟨d, hd, rfl⟩ := exists_digitChar hc
    rw [Nat.ofDigitChars_cons_digitChar_of_lt_ten hd, Nat.mul_zero, Nat.zero_add]
    rcases Nat.eq_zero_or_pos d with rfl | hpos
    · rw [ofNat_eq_withoutZeros hdigits]
      rfl
    · have hzero : (d.digitChar == '0') = false := by
        simpa using mt Nat.digitChar_eq_zero.mp (Nat.ne_of_gt hpos)
      rw [ofNat_ofDigitChars hpos hdigits, ofNat, Nat.toDigits_of_lt_base hd, withoutZeros,
        List.dropWhile_cons_of_neg (by simp [hzero])]
      rfl

/-! ## Shortest spellings -/

theorem ofNat_of_digits {digits : List Char} {n : Nat} (h : Digits digits n) :
    ofNat n = withoutZeros digits := by
  rw [← h.2.2, ofNat_eq_withoutZeros h.2.1]

theorem isDigits_of_digits {digits : List Char} {n : Nat} (h : Digits digits n) :
    isDigits digits = true :=
  isDigits_iff.mpr ⟨n, h⟩

theorem negated_ofNat (n : Nat) : negated (ofNat n) = ofInt (-n) := by
  cases n with
  | zero => rfl
  | succ n =>
    have hne : ofNat (n + 1) ≠ ['0'] := by
      intro h
      have := Nat.ofDigitChars_ten_toDigits (n := n + 1)
      rw [show Nat.toDigits 10 (n + 1) = ['0'] from h] at this
      cases this
    rw [negated, if_neg hne]
    rfl

/-- **The shortest spelling of a numeral is how its value is printed.** -/
theorem shortest_of_signed {text : List Char} {z : Int} (h : Signed text z) :
    shortest text = ofInt z := by
  cases h with
  | plus h =>
    rw [shortest, if_pos (isDigits_of_digits h), ← ofNat_of_digits h]
    rfl
  | minus h =>
    rw [shortest, if_pos (isDigits_of_digits h), ← ofNat_of_digits h, negated_ofNat]
  | plain h =>
    unfold shortest
    split
    · exact absurd h (not_digits_sign (by decide))
    · exact absurd h (not_digits_sign (by decide))
    · rw [if_pos (isDigits_of_digits h), ← ofNat_of_digits h]
      rfl

/-- A text is a numeral, or its spelling is left alone. -/
theorem signed_or_shortest_eq (text : List Char) : (∃ z, Signed text z) ∨ shortest text = text := by
  unfold shortest
  split
  · split
    · rename_i h
      obtain ⟨n, hn⟩ := isDigits_iff.mp h
      exact Or.inl ⟨n, .plus hn⟩
    · exact Or.inr rfl
  · split
    · rename_i h
      obtain ⟨n, hn⟩ := isDigits_iff.mp h
      exact Or.inl ⟨-n, .minus hn⟩
    · exact Or.inr rfl
  · split
    · rename_i h
      obtain ⟨n, hn⟩ := isDigits_iff.mp h
      exact Or.inl ⟨n, .plain hn⟩
    · exact Or.inr rfl

/-- **A shortest spelling cannot be shortened again.** -/
theorem shortest_shortest (text : List Char) : shortest (shortest text) = shortest text := by
  rcases signed_or_shortest_eq text with ⟨z, hz⟩ | h
  · rw [shortest_of_signed hz, shortest_of_signed (signed_ofInt z)]
  · rw [h, h]

end CardContent.Numeral
