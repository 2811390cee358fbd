/-!
# Blank characters, trimming and words

White space is the Unicode property `White_Space`, whatever part of a text it stands in: around a
CSV field, around a numeral, at the ends of a line. `isBlank` is that property, `trim` removes it
at both ends, and `words` are the runs of characters between it.
-/

set_option autoImplicit false

namespace CardContent.Text

/-- The code points with the property `White_Space`, as ranges with both ends included. -/
def blankRanges : List (Nat × Nat) :=
  [(0x09, 0x0D), (0x20, 0x20), (0x85, 0x85), (0xA0, 0xA0), (0x1680, 0x1680), (0x2000, 0x200A),
    (0x2028, 0x2029), (0x202F, 0x202F), (0x205F, 0x205F), (0x3000, 0x3000)]

/-- Whether a character is white space. -/
def isBlank (c : Char) : Bool :=
  blankRanges.any fun range => range.1 ≤ c.toNat && c.toNat ≤ range.2

/-- A list without the longest tail whose members all satisfy `p`. -/
def dropEndWhile {α : Type} (p : α → Bool) (xs : List α) : List α :=
  (xs.reverse.dropWhile p).reverse

/-- A text without the white space at its two ends. -/
def trim (cs : List Char) : List Char :=
  dropEndWhile isBlank (cs.dropWhile isBlank)

/-- `trim` on strings. -/
def trimmed (s : String) : String :=
  String.ofList (trim s.toList)

/-- The maximal runs of characters that are not white space, in order. -/
def words (cs : List Char) : List (List Char) :=
  (cs.splitOnP isBlank).filter fun word => !word.isEmpty

/-- `text` behind as many spaces as bring it to `width` characters. -/
def alignRight (width : Nat) (text : String) : String :=
  String.ofList (List.replicate (width - text.length) ' ') ++ text

/-! ## Lemmas -/

section DropEnd

variable {α : Type} (p : α → Bool)

theorem dropEndWhile_append_of_all {xs ys : List α} (h : ∀ y ∈ ys, p y = true) :
    dropEndWhile p (xs ++ ys) = dropEndWhile p xs := by
  unfold dropEndWhile
  rw [List.reverse_append, List.dropWhile_append_of_pos]
  exact fun y hy => h y (List.mem_reverse.mp hy)

theorem isPrefix_dropEndWhile (xs : List α) : dropEndWhile p xs <+: xs := by
  have h := List.dropWhile_suffix (l := xs.reverse) p
  have := List.reverse_prefix.mpr h
  rwa [List.reverse_reverse] at this

theorem length_dropEndWhile_le (xs : List α) : (dropEndWhile p xs).length ≤ xs.length :=
  (isPrefix_dropEndWhile p xs).length_le

end DropEnd

theorem length_trim_le (cs : List Char) : (trim cs).length ≤ cs.length :=
  Nat.le_trans (length_dropEndWhile_le _ _) (List.dropWhile_suffix _).length_le

end CardContent.Text
