import CardContent.Name.Table
import CardContent.Proofs.Name.Spelled

/-!
# The table of spellings is regular

Printable ASCII spells itself by the table, controls are spelled as nothing, and all white space of
Unicode is in the table, as white space or as nothing.

Results:
* `regular_standard`: all of this about the spelling of the table.
-/

set_option autoImplicit false

namespace CardContent.Name.Spelling

open CardContent.Text

theorem spell_control {n : Nat} (h : n < 0x20) : spell (Char.ofNat n) = [] := by
  have hall : ∀ m ∈ List.range 0x20, spell (Char.ofNat m) = [] := by decide +kernel
  exact hall n (List.mem_range.mpr h)

/-- All code points of white space. -/
def blankCodes : List Nat :=
  blankRanges.flatMap fun range => List.range' range.1 (range.2 + 1 - range.1)

theorem mem_blankCodes {c : Char} (h : isBlank c = true) : c.toNat ∈ blankCodes := by
  obtain ⟨range, hrange, hc⟩ := List.any_eq_true.mp h
  obtain ⟨hlow, hhigh⟩ := Bool.and_eq_true_iff.mp hc
  have hlow : range.1 ≤ c.toNat := of_decide_eq_true hlow
  have hhigh : c.toNat ≤ range.2 := of_decide_eq_true hhigh
  refine List.mem_flatMap.mpr ⟨range, hrange, List.mem_range'_1.mpr ⟨hlow, ?_⟩⟩
  omega

theorem blank_spell {c : Char} (h : isBlank c = true) : Blank (spell c) := by
  have hall : ∀ n ∈ blankCodes, Blank (spell (Char.ofNat n)) := by decide +kernel
  have hcode := hall c.toNat (mem_blankCodes h)
  rwa [Char.ofNat_toNat] at hcode

/-- **The spelling of the table is regular.** -/
theorem regular_standard : standard.Regular where
  printable c hplain hcode := by
    show spell c = [c]
    rw [spell, if_pos (Bool.and_eq_true_iff.mpr ⟨hplain, decide_eq_true hcode⟩)]
  control c hcode := by
    show spell c = []
    rw [← Char.ofNat_toNat c]
    exact spell_control hcode
  blank _ h := blank_spell h

end CardContent.Name.Spelling
