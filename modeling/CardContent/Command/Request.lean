import CardContent.Card.Basic
import CardContent.Command.Arguments
import CardContent.Log.Verbosity

/-!
# What a command line asks for

A command line names the folder of the content, a verbosity and one of four commands. The folder
and the verbosity may be given in front of the command or behind it, and behind it counts. A
folder that is not given is taken from the environment, else it is `data`.
-/

set_option autoImplicit false

namespace CardContent.Command

/-- How a result is written (`OutputFormat`). -/
inductive Format where
  | text
  | json
  deriving DecidableEq, Repr

/-- The format with a name. -/
def Format.ofName? (name : String) : Option Format :=
  if name = "text" then some .text else if name = "json" then some .json else none

/-- What can be asked of decoded content. -/
inductive Query where
  /-- The cards, all or those of one kind. -/
  | cards (format : Format) (only : Option Kind)
  /-- The effects with their numbers. -/
  | effects (format : Format)
  /-- One card, with its effect as a token behind it if `token` holds. -/
  | card (name : String) (format : Format) (token : Bool)
  deriving DecidableEq, Repr

/-- A command (`Commands`). -/
inductive Action where
  /-- Load the content and answer a query. -/
  | content (query : Query)
  /-- List the starting deck. -/
  | deck
  deriving DecidableEq, Repr

/-- What to do, where and how loudly (`Cli`). -/
structure Request where
  folder : String
  verbosity : Log.Verbosity
  action : Action
  deriving DecidableEq, Repr

/-- The variable of the environment that names the folder. -/
def folderVariable : String := "CARD_DATA_DIR"

/-- The folder if nothing names one. -/
def defaultFolder : String := "data"

/-- The options that stand in front of a command or behind it. -/
def commonKeys : List Key := [.data, .verbosity]

/-- The options of a command by its name, with the common ones. -/
def keysOf? : String → Option (List Key)
  | "list" => some (.format :: .acquirable :: .defeatable :: commonKeys)
  | "effects" => some (.format :: commonKeys)
  | "show" => some (.format :: .token :: commonKeys)
  | "counts" => some commonKeys
  | _ => none

/-- The format asked for. -/
def Given.format? (given : Given) : Option Format :=
  match given.value? .format with
  | none => some .text
  | some name => Format.ofName? name

/-- The kind of cards asked for; only one can be. -/
def Given.only? (given : Given) : Option (Option Kind) :=
  match given.has .acquirable, given.has .defeatable with
  | false, false => some none
  | true, false => some (some .acquirable)
  | false, true => some (some .defeatable)
  | true, true => none

/-- The command of a name with what is given behind it. -/
def Action.of? (name : String) (given : Given) : Option Action :=
  match name, given.words with
  | "list", [] => do return .content (.cards (← given.format?) (← given.only?))
  | "effects", [] => do return .content (.effects (← given.format?))
  | "show", [card] => do return .content (.card card (← given.format?) (given.has .token))
  | "counts", [] => some .deck
  | _, _ => none

/-- A folder named by one place of the command line, or by the environment behind it. It must not
be empty. -/
def Given.folder? (given : Given) (environment? : Option String) : Option String :=
  let folder := ((given.value? .data).or environment?).getD defaultFolder
  if folder.isEmpty then none else some folder

/-- The verbosity given in one place of the command line. -/
def Given.verbosity? (given : Given) : Option Log.Verbosity :=
  match given.value? .verbosity with
  | none => some .normal
  | some text => Log.Verbosity.ofText? text

/-- The request of a command line, `environment?` being the folder named by the environment; none if
the command line does not have the right form. -/
def Request.read (environment? : Option String) (arguments : List String) : Option Request := do
  let (front, rest) ← readArguments commonKeys true Given.nothing arguments
  let folder ← front.folder? environment?
  let verbosity ← front.verbosity?
  match front.words, rest with
  | [], [] => return { folder, verbosity, action := .content (.cards .text none) }
  | [], name :: rest =>
    let (behind, _) ← readArguments (← keysOf? name) false Given.nothing rest
    let action ← Action.of? name behind
    let folderBehind ← behind.folder? environment?
    let verbosityBehind ← behind.verbosity?
    return {
      folder := if behind.has .data || !front.has .data then folderBehind else folder
      verbosity := if behind.has .verbosity then verbosityBehind else verbosity
      action }
  | _, _ => none

end CardContent.Command
