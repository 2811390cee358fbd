import CardContent.Json.Basic
import CardContent.Text.Numeral

/-!
# JSON text, indented

One item or field to a line, two spaces deeper than its brackets; empty brackets stay together.
-/

set_option autoImplicit false

namespace CardContent.Json

/-- A character as it stands inside a quoted string: quotes, backslashes and control characters
below U+0020 are escaped, all others stand for themselves. -/
def escape (c : Char) : List Char :=
  if c = '"' then ['\\', '"']
  else if c = '\\' then ['\\', '\\']
  else if c = '\n' then ['\\', 'n']
  else if c = '\r' then ['\\', 'r']
  else if c = '\t' then ['\\', 't']
  else if c = '\x08' then ['\\', 'b']
  else if c = '\x0c' then ['\\', 'f']
  else if c.toNat < 0x20 then
    ['\\', 'u', '0', '0', Nat.digitChar (c.toNat / 16), Nat.digitChar (c.toNat % 16)]
  else [c]

/-- A quoted string. -/
def quote (s : String) : String :=
  String.ofList ('"' :: s.toList.flatMap escape ++ ['"'])

/-- The start of a line `depth` levels deep. -/
def newLine (depth : Nat) : String :=
  String.ofList ('\n' :: List.replicate (2 * depth) ' ')

mutual

/-- The text of a value that stands `depth` levels deep. -/
def render (depth : Nat) : Json → String
  | .null => "null"
  | .bool true => "true"
  | .bool false => "false"
  | .int n => Numeral.intText n
  | .real text => text
  | .str s => quote s
  | .arr items =>
    if items.isEmpty then "[]"
    else "[" ++ ",".intercalate (renderItems (depth + 1) items) ++ newLine depth ++ "]"
  | .obj fields =>
    if fields.isEmpty then "\x7b\x7d"
    else "\x7b" ++ ",".intercalate (renderFields (depth + 1) fields) ++ newLine depth ++ "\x7d"

/-- The items of an array, each on its line. -/
def renderItems (depth : Nat) : List Json → List String
  | [] => []
  | item :: rest => (newLine depth ++ render depth item) :: renderItems depth rest

/-- The fields of an object, each on its line. -/
def renderFields (depth : Nat) : List (String × Json) → List String
  | [] => []
  | (name, value) :: rest =>
    (newLine depth ++ quote name ++ ": " ++ render depth value) :: renderFields depth rest

end

/-- The indented text of a value. -/
def pretty (value : Json) : String :=
  render 0 value

end CardContent.Json
