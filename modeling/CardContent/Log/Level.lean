/-!
# Log records and how many of them are shown

Records have one of five levels. A filter shows the records up to a level, or none at all.
-/

set_option autoImplicit false

namespace CardContent.Log

/-- How weighty a record is, the weightiest first. -/
inductive Level where
  | error
  | warn
  | info
  | debug
  | trace
  deriving DecidableEq, Repr

namespace Level

/-- The place of a level, counted from the weightiest. -/
def rank : Level → Nat
  | .error => 1
  | .warn => 2
  | .info => 3
  | .debug => 4
  | .trace => 5

/-- The name of a level. -/
def name : Level → String
  | .error => "ERROR"
  | .warn => "WARN"
  | .info => "INFO"
  | .debug => "DEBUG"
  | .trace => "TRACE"

/-- The name of a level in front of a record, all names being equally wide. -/
def tag (level : Level) : String :=
  "[" ++ level.name ++ String.ofList (List.replicate (5 - level.name.length) ' ') ++ "] "

end Level

/-- Which records are shown. -/
inductive Filter where
  | off
  | upTo (level : Level)
  deriving DecidableEq, Repr

namespace Filter

/-- Whether records of a level are shown (`StderrLogger::enabled`). -/
def shows : Filter → Level → Bool
  | .off, _ => false
  | .upTo limit, level => decide (level.rank ≤ limit.rank)

/-- The name of a filter. -/
def name : Filter → String
  | .off => "OFF"
  | .upTo limit => limit.name

end Filter

/-- A text at a level. -/
structure Record where
  level : Level
  text : String
  deriving DecidableEq, Repr

/-- The line that a record is written as (`StderrLogger::log`). -/
def Record.line (record : Record) : String :=
  record.level.tag ++ record.text ++ "\n"

end CardContent.Log
