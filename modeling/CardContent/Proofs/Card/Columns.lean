import CardContent.Proofs.Card.Row
import CardContent.Proofs.Effect.Grammar
import Mathlib

/-!
# Several effect columns are one column

A row may give the effects of a card in several columns, or as the parts of one token in which all
of them happen. The first way reads each column by itself, the second cuts the token apart again.
Both come to the same, also where a column is no token at all, as long as its parentheses match and
its semicolons stand inside them: otherwise it would be cut elsewhere.

`allOfToken tokens` is the token with these parts.

Results:
* `parse_allOfToken`: it is read part by part, up to the first part that is wrong.
* `effectOfColumns_allOfToken`: so the one column gives the effect or the error of the several.
* `ofRow_allOfToken`: so does the row, whatever stands in front of the effects.
-/

set_option autoImplicit false

namespace CardContent

namespace Effect

variable {catalog : Catalog}

/-- The token of the effect in which all of these happen. -/
def allOfToken (tokens : List String) : String :=
  "AND(" ++ ";".intercalate tokens ++ ")"

/-- A text that is a part of a compound as it stands: it is cut off whole, and nothing of it is
trimmed away. It need not be a token. -/
structure IsPiece (text : String) : Prop where
  trimmed : Text.Trimmed text.toList
  matched : Matched text.toList

instance (text : String) : Decidable (IsPiece text) :=
  decidable_of_iff (Text.Trimmed text.toList ∧ Matched text.toList)
    ⟨fun h => ⟨h.1, h.2⟩, fun h => ⟨h.1, h.2⟩⟩

theorem toList_allOfToken (tokens : List String) : (allOfToken tokens).toList = Call.write
    ⟨Combinator.all.keyword.toList, [';'].intercalate (tokens.map String.toList), false⟩ := by
  rw [allOfToken, String.toList_append, String.toList_append, String.toList_intercalate]
  simp [Call.write, Combinator.keyword]

/-- **The parts are cut apart again.** -/
theorem splitChildren_pieces {tokens : List String} (hne : tokens ≠ [])
    (h : ∀ token ∈ tokens, IsPiece token) :
    splitChildren ([';'].intercalate (tokens.map String.toList)) = tokens.map String.toList := by
  have hlevel : ∀ piece ∈ tokens.map String.toList, Level 0 piece := by
    intro piece hpiece
    obtain ⟨token, htoken, rfl⟩ := List.mem_map.mp hpiece
    exact level_of_matched (h token htoken).matched
  rw [splitChildren, cutAt_intercalate (mt List.map_eq_nil_iff.mp hne) hlevel, List.map_map]
  exact List.map_congr_left fun token htoken => Text.trim_of_trimmed (h token htoken).trimmed

/-- **A token of pieces is read part by part**, up to the first that is wrong. -/
theorem parse_allOfToken {tokens : List String} (hne : tokens ≠ [])
    (h : ∀ token ∈ tokens, IsPiece token) :
    parse catalog (allOfToken tokens) = (parseAll catalog tokens).map allOf := by
  have hparts : (tokens.map String.toList).mapM (readChars catalog) = parseAll catalog tokens :=
    List.mapM_map
  rw [parse, toList_allOfToken, readChars_keyword, splitChildren_pieces hne h, hparts]
  rfl

end Effect

namespace Card

variable {kind : Kind} {catalog : Catalog} {place : Option Nat}

/-- **One column gives the effect or the error of several.** -/
theorem effectOfColumns_allOfToken {label : String} {columns : List String}
    (htwo : 2 ≤ columns.length) (h : ∀ column ∈ columns, Effect.IsPiece column) :
    effectOfColumns catalog label [Effect.allOfToken columns] =
      effectOfColumns catalog label columns := by
  have hne : columns ≠ [] := by
    rintro rfl
    simp at htwo
  have hone : Effect.parseAll catalog [Effect.allOfToken columns] =
      (Effect.parseAll catalog columns).map fun effects => [Effect.allOf effects] := by
    rw [Effect.parseAll, List.mapM_cons, List.mapM_nil, Effect.parse_allOfToken hne h]
    cases Effect.parseAll catalog columns <;> rfl
  unfold effectOfColumns
  rw [hone]
  cases hparse : Effect.parseAll catalog columns with
  | error fault => rfl
  | ok effects =>
    rw [(mapM_eq_ok_iff.mp hparse).length_eq] at htwo
    rcases effects with _ | ⟨e₁, _ | ⟨e₂, rest⟩⟩
    · exact absurd htwo (by simp)
    · exact absurd htwo (by simp)
    · rfl

/-- What stands behind the leading columns counts by the effect that it gives. -/
theorem ofRow_congr {leading columns others : List String}
    (hleading : leading.length = kind.fixedColumns)
    (h : ∀ label, effectOfColumns catalog label columns = effectOfColumns catalog label others) :
    ofRow kind catalog place (leading ++ columns) =
      ofRow kind catalog place (leading ++ others) := by
  match kind, leading, hleading with
  | .acquirable, [name, cost, honor, type], _ =>
    have hlabel : rowLabel place (name :: cost :: honor :: type :: columns) =
        rowLabel place (name :: cost :: honor :: type :: others) := rfl
    simp only [List.cons_append, List.nil_append, ofRow, hlabel, h]
  | .defeatable, [name, cost, type], _ =>
    have hlabel : rowLabel place (name :: cost :: type :: columns) =
        rowLabel place (name :: cost :: type :: others) := rfl
    simp only [List.cons_append, List.nil_append, ofRow, hlabel, h]

/-- **Several effect columns mean exactly the one column with all of them.** Whatever the catalog,
the leading columns and the place of the row: if each of two or more columns is trimmed, has
matching parentheses and no semicolon outside them, then the row gives the same card, or the same
error about the same card, with the columns as they are and with one token in their place. The
columns need not be tokens. -/
theorem ofRow_allOfToken (kind : Kind) (catalog : Catalog) (place : Option Nat)
    (leading columns : List String) (hleading : leading.length = kind.fixedColumns)
    (htwo : 2 ≤ columns.length) (hpieces : ∀ column ∈ columns, Effect.IsPiece column) :
    ofRow kind catalog place (leading ++ [Effect.allOfToken columns]) =
      ofRow kind catalog place (leading ++ columns) :=
  ofRow_congr hleading fun _ => effectOfColumns_allOfToken htwo hpieces

/-- A row whose first column of effects has semicolons of its own. -/
def seerColumns : List String := ["OR(3();4())?", "1( 1 )"]

/-- A row two columns of which are no tokens; the first of them decides. -/
def brokenColumns : List String := ["1()", "AND(2();)x", "9()"]

theorem ofRow_allOfToken_seer :
    let catalog := Catalog.ofList (List.replicate 4 "Gain 1 rune.")
    (∀ column ∈ seerColumns, Effect.IsPiece column) ∧
      (∀ column ∈ brokenColumns, Effect.IsPiece column) ∧
      ofRow .acquirable catalog (some 3) ["Seer", "2", "1", "Hero", "AND(OR(3();4())?;1( 1 ))"] =
        ofRow .acquirable catalog (some 3) (["Seer", "2", "1", "Hero"] ++ seerColumns) ∧
      ofRow .defeatable catalog (some 1) ["", "2", "Monster", "AND(1();AND(2();)x;9())"] =
        ofRow .defeatable catalog (some 1) (["", "2", "Monster"] ++ brokenColumns) ∧
      ofRow .defeatable catalog (some 1) (["", "2", "Monster"] ++ brokenColumns) =
        .error (.inCard "row 1" (.malformed "AND(2();)x")) := by
  intro catalog
  have hseer : ∀ column ∈ seerColumns, Effect.IsPiece column := by decide
  have hbroken : ∀ column ∈ brokenColumns, Effect.IsPiece column := by decide
  refine ⟨hseer, hbroken, ?_, ?_, by cbv⟩
  · exact ofRow_allOfToken .acquirable catalog (some 3) ["Seer", "2", "1", "Hero"] seerColumns rfl
      (by decide) hseer
  · exact ofRow_allOfToken .defeatable catalog (some 1) ["", "2", "Monster"] brokenColumns rfl
      (by decide) hbroken

end Card

end CardContent
