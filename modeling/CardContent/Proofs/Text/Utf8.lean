import CardContent.Text.Utf8

/-!
# Characters and the bytes of a text

`encode` gives the bytes of characters. A character below U+0080 is one byte with its code
(`encodeChar_ascii`), and no byte of any other character is below 0x80 (`le_of_mem_encodeChar`), so
that no part of a character is ever taken for a character of ASCII.

Results:
* `toList_toUTF8`: the bytes of a text are those of its characters.
* `text?_encode`: the bytes of characters are read as these characters.
-/

set_option autoImplicit false

namespace CardContent.Utf8

/-- The bytes of characters. -/
def encode (cs : List Char) : List UInt8 :=
  cs.flatMap String.utf8EncodeChar

@[simp] theorem encode_nil : encode [] = [] := rfl

theorem encode_cons (c : Char) (cs : List Char) :
    encode (c :: cs) = String.utf8EncodeChar c ++ encode cs := List.flatMap_cons

theorem encode_append (cs more : List Char) : encode (cs ++ more) = encode cs ++ encode more :=
  List.flatMap_append

theorem encode_singleton (c : Char) : encode [c] = String.utf8EncodeChar c :=
  List.flatMap_singleton _ c

/-! ## One character -/

theorem encodeChar_ascii {c : Char} (h : c.toNat < 0x80) :
    String.utf8EncodeChar c = [UInt8.ofNat c.toNat] := by
  rw [String.utf8EncodeChar]
  exact if_pos (Nat.le_of_lt_succ h)

theorem le_toNat_ofNat {n : Nat} (hlow : 0x80 ≤ n) (hhigh : n < 0x100) :
    0x80 ≤ (UInt8.ofNat n).toNat := by
  rw [UInt8.toNat_ofNat', Nat.mod_eq_of_lt hhigh]
  exact hlow

/-- **No byte of a character beyond ASCII is one of ASCII.** -/
theorem le_of_mem_encodeChar {c : Char} (h : 0x80 ≤ c.toNat) {b : UInt8}
    (hb : b ∈ String.utf8EncodeChar c) : 0x80 ≤ b.toNat := by
  have hascii : ¬c.val.toNat ≤ 0x7F := Nat.not_le.mpr h
  rw [String.utf8EncodeChar] at hb
  simp only [if_neg hascii] at hb
  -- by the number of bytes, each of which is a mark of at least 0x80 and some bits of the character
  split at hb
  · simp only [List.mem_cons, List.not_mem_nil, or_false] at hb
    rcases hb with rfl | rfl <;> exact le_toNat_ofNat (by omega) (by omega)
  · split at hb
    · simp only [List.mem_cons, List.not_mem_nil, or_false] at hb
      rcases hb with rfl | rfl | rfl <;> exact le_toNat_ofNat (by omega) (by omega)
    · simp only [List.mem_cons, List.not_mem_nil, or_false] at hb
      rcases hb with rfl | rfl | rfl | rfl <;> exact le_toNat_ofNat (by omega) (by omega)

/-! ## Texts -/

theorem toByteArray_encode (cs : List Char) :
    (encode cs).toByteArray = (String.ofList cs).toByteArray := rfl

/-- The bytes of a text are those of its characters. -/
theorem toList_toUTF8 (text : String) : text.toUTF8.data.toList = encode text.toList := by
  rw [String.toUTF8_eq_toByteArray, ← String.utf8Encode_toList, List.utf8Encode]
  simp [encode]

theorem text?_toUTF8 (text : String) : text? text.toUTF8 = some text := by
  rw [text?, String.fromUTF8?, String.toUTF8_eq_toByteArray, dif_pos text.isValidUTF8]
  rfl

/-- **The bytes of characters are read as these characters.** -/
theorem text?_encode (cs : List Char) :
    text? (encode cs).toByteArray = some (String.ofList cs) := by
  rw [toByteArray_encode]
  exact text?_toUTF8 _

end CardContent.Utf8
