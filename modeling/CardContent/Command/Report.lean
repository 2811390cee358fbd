import CardContent.Error
import CardContent.Text.Blank

/-!
# Reports of failures

A failure is reported with what was tried and, below it, the causes: one cause indented, several
ones numbered from 0. Further lines of a cause stand under its first.
-/

set_option autoImplicit false

namespace CardContent.Command

/-- Why a command failed. -/
inductive Failure where
  | load (folder : String) (error : Error)
  | counts (folder : String) (error : Error)
  | noCard (name : String)
  deriving DecidableEq, Repr

namespace Failure

/-- What was tried or was not found. -/
def headline : Failure → String
  | .load folder _ => "failed to load card content from " ++ folder
  | .counts folder _ => "failed to read counts from " ++ folder
  | .noCard name => "no card named '" ++ name ++ "'"

/-- The texts of the causes, one behind the other. -/
def causes : Failure → List String
  | .load _ error | .counts _ error => error.causes
  | .noCard _ => []

end Failure

/-- A text behind `label`, its further lines indented by `indent` spaces. -/
def hang (label : String) (indent : Nat) (text : String) : String :=
  let pieces := (text.toList.splitOn '\n').map String.ofList
  label ++ (String.ofList ('\n' :: List.replicate indent ' ')).intercalate pieces

/-- The causes as they stand in a report, each on a line of its own. -/
def causeLines : List String → List String
  | [] => []
  | [cause] => [hang "    " 4 cause]
  | causes => causes.zipIdx.map fun cause =>
    hang (Text.alignRight 5 (Numeral.natText cause.2) ++ ": ") 7 cause.1

/-- The report of a failure. -/
def Failure.report (failure : Failure) : String :=
  let causes := causeLines failure.causes
  let below := if causes.isEmpty then "" else "\n\nCaused by:\n" ++ "\n".intercalate causes
  "Error: " ++ failure.headline ++ below ++ "\n"

end CardContent.Command
