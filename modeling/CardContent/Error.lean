import CardContent.Csv.Table
import CardContent.Effect.Parser

/-!
# What can be wrong with content

Every error is a cause with the data of the case. `message` is its text; `causes` lists the texts
of an error and of what lies behind it, the innermost last. Only a token error is ever put into the
context of its card.
-/

set_option autoImplicit false

namespace CardContent

/-- Why the columns of a row are no card (the reasons of `CardError::InvalidRow`). -/
inductive RowFault where
  | tooFewColumns (expected found : Nat)
  | honorNotInteger (text : String)
  | noEffects
  deriving DecidableEq, Repr

/-- The text of a row fault. -/
def RowFault.message : RowFault → String
  | .tooFewColumns expected found =>
    "expected at least " ++ Numeral.natText expected ++ " columns, found " ++ Numeral.natText found
  | .honorNotInteger text => "honor '" ++ text ++ "' is not an integer"
  | .noEffects => "no effect columns"

/-- Why content is not accepted (`CardError`). -/
inductive Error where
  /-- A token by itself is no effect. -/
  | token (fault : TokenError)
  /-- A token on a card is no effect. -/
  | inCard (label : String) (fault : TokenError)
  /-- The row with this label is no card. -/
  | row (label : String) (fault : RowFault)
  /-- The line gives no count. -/
  | count (line : String)
  /-- The one load was claimed before. -/
  | alreadyLoaded
  /-- There is no such resource. -/
  | missing (resource : String)
  /-- The bytes of a resource are no text. -/
  | notText
  /-- A file cannot be opened, or not be read as a text. -/
  | file (reason : String)
  /-- A file cannot be read as a table. -/
  | tableFile (reason : String)
  /-- A field of a table is no text. -/
  | table (fault : Csv.Fault)
  deriving DecidableEq, Repr

namespace Error

/-- What is said of bytes that are no text. -/
def notTextMessage : String := "stream did not contain valid UTF-8"

/-- The text of an error. -/
def message : Error → String
  | .token fault => fault.message
  | .inCard label fault => "In card '" ++ label ++ "': " ++ fault.message
  | .row label fault => "Invalid row " ++ label ++ ": " ++ fault.message
  | .count line => "Invalid card count line: " ++ line
  | .alreadyLoaded => "Structural violation: card catalog already loaded in this process"
  | .missing resource => "Missing resource: " ++ resource
  | .notText => "IO error: " ++ notTextMessage
  | .file reason => "IO error: " ++ reason
  | .tableFile reason => "CSV error: " ++ reason
  | .table fault => "CSV error: " ++ fault.message

/-- The error without the card that it was found on (`CardError::root`). -/
def root : Error → Error
  | .inCard _ fault => .token fault
  | error => error

/-- The texts of an error and of the causes behind it, one behind the other. -/
def causes (error : Error) : List String :=
  error.message ::
    match error with
    | .inCard _ fault => [fault.message]
    | .notText => [notTextMessage]
    | .file reason | .tableFile reason => [reason]
    | .table fault => [fault.message]
    | _ => []

end Error

end CardContent
