import CardContent.Json.Basic
import CardContent.Log.Level

/-!
# Verbosity

The user chooses one of four verbosities, by name or by number.
-/

set_option autoImplicit false

namespace CardContent.Log

/-- How much is logged (`VerbosityLevel`). -/
inductive Verbosity where
  | silent
  | minimal
  | normal
  | verbose
  deriving DecidableEq, Repr

namespace Verbosity

/-- All verbosities, from the least to the most. -/
def all : List Verbosity := [.silent, .minimal, .normal, .verbose]

/-- The number of a verbosity. -/
def number : Verbosity → Nat
  | .silent => 0
  | .minimal => 1
  | .normal => 2
  | .verbose => 3

/-- The name of a verbosity. -/
def name : Verbosity → String
  | .silent => "Silent"
  | .minimal => "Minimal"
  | .normal => "Normal"
  | .verbose => "Verbose"

/-- The filter of a verbosity (`VerbosityLevel::level_filter`). -/
def filter : Verbosity → Filter
  | .silent => .off
  | .minimal => .upTo .warn
  | .normal => .upTo .info
  | .verbose => .upTo .trace

/-- The verbosity that a text chooses, in upper or lower case (`VerbosityLevel::from_str`). Only the
ASCII letters have two cases here; none other has a letter of these names as its lower case. -/
def ofText? (text : String) : Option Verbosity :=
  match String.ofList (text.toList.map Char.toLower) with
  | "silent" | "0" => some .silent
  | "minimal" | "1" => some .minimal
  | "normal" | "2" => some .normal
  | "verbose" | "3" => some .verbose
  | _ => none

/-- What is said of a text that chooses no verbosity. -/
def refusal (text : String) : String :=
  "invalid verbosity level '" ++ text ++
    "' (expected: silent/0, minimal/1, normal/2, verbose/3)"

/-- The verbosity with a name, in exactly this spelling. -/
def ofName? (name : String) : Option Verbosity :=
  all.find? fun v => v.name = name

/-- A verbosity by its name, or by an object with its name as the only key and null in it (the
derived `Deserialize` of `VerbosityLevel`). -/
def ofJson? : Json → Option Verbosity
  | .str name => ofName? name
  | .obj [(name, .null)] => ofName? name
  | _ => none

end Verbosity

end CardContent.Log
