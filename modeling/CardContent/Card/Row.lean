import CardContent.Card.Basic
import CardContent.Error

/-!
# Cards from the rows of a table

A row holds the name and the cost of a card, its honor if it is acquirable, its class, and then its
effects, one to a column. Several effects on one card all happen. Errors name the card, or the
place of the row if the card has no name.
-/

set_option autoImplicit false

namespace CardContent

/-- The number of columns in front of the effects. -/
def Kind.fixedColumns : Kind → Nat
  | .acquirable => 4
  | .defeatable => 3

namespace Card

/-- What a row is called in errors: the name in its first column, else its place in the table
(`row_label`). -/
def rowLabel (place : Option Nat) (row : Csv.Row) : String :=
  match row with
  | name :: _ => if name.isEmpty then unnamed place else name
  | [] => unnamed place
where
  /-- What a row without a name is called. -/
  unnamed : Option Nat → String
    | some n => "row " ++ Numeral.natText n
    | none => "unnamed row"

/-- The effect of a card with these effect columns (`decode_effect_columns`). -/
def effectOfColumns (catalog : Catalog) (label : String) (columns : List String) :
    Except Error Effect :=
  match Effect.parseAll catalog columns with
  | .error fault => .error (.inCard label fault)
  | .ok [] => .error (.row label .noEffects)
  | .ok [effect] => .ok effect
  | .ok effects => .ok (.allOf effects)

/-- The card of a given kind in a row at a given place (`acquirable_at`, `defeatable_at` and
`check_width`). -/
def ofRow (kind : Kind) (catalog : Catalog) (place : Option Nat) (row : Csv.Row) :
    Except Error Card :=
  let label := rowLabel place row
  match kind, row with
  | .acquirable, name :: cost :: honor :: type :: columns =>
    match Numeral.int32? honor.toList with
    | none => .error (.row label (.honorNotInteger honor))
    | some value => do
      let effect ← effectOfColumns catalog label columns
      return { name, cost := ⟨cost⟩, type, role := .acquirable value, effect }
  | .defeatable, name :: cost :: type :: columns => do
    let effect ← effectOfColumns catalog label columns
    return { name, cost := ⟨cost⟩, type, role := .defeatable, effect }
  | _, _ => .error (.row label (.tooFewColumns kind.fixedColumns row.length))

/-- The cards of a table, up to the first row that is none (`decode_acquirables`,
`decode_defeatables`). Places are counted from 1. -/
def ofRows (kind : Kind) (catalog : Catalog) (rows : List Csv.Row) : Except Error (List Card) :=
  (rows.zipIdx 1).mapM fun row => ofRow kind catalog (some row.2) row.1

end Card

end CardContent
