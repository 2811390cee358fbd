import CardContent.Text.Blank

/-!
# Lines of a text

A line ends at a line feed. The carriage returns in front of the line feed belong to the line end,
so a text reads the same whichever of the usual line ends it was written with. Blank lines in the
middle of a text are lines; those after the last line that has any text are not.

Lines are made in three stages. A text is cut into raw lines, which lose one carriage return at
most; then every line loses all carriage returns at its end; then the blank lines at the end go.
-/

set_option autoImplicit false

namespace CardContent.Text

/-- A line without the carriage return of its line end. -/
def stripReturn (line : List Char) : List Char :=
  if line.getLast? = some '\r' then line.dropLast else line

/-- The raw lines of a text (`str::lines`): a line feed at the very end closes the last line and
opens no further one, and a carriage return at the very end belongs to no line end. -/
def rawLines (text : String) : List (List Char) :=
  let pieces := text.toList.splitOn '\n'
  pieces.dropLast.map stripReturn ++
    match pieces.getLast? with
    | none | some [] => []
    | some last => [last]

/-- A line without the carriage returns at its end. -/
def stripReturns (line : List Char) : List Char :=
  dropEndWhile (fun c => c == '\r') line

/-- The lines of a text, up to the last one that is not blank (`parse_lines`). -/
def lines (text : String) : List String :=
  (dropEndWhile (fun line => line.all isBlank) ((rawLines text).map stripReturns)).map String.ofList

end CardContent.Text
