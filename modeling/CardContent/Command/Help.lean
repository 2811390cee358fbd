import CardContent.Command.Request

/-!
# Command lines that ask for help

Help is asked for by `--help` or `-h`, about the program in front of a command and about the command
behind it, or by `help` in the place of a command. What stands behind the asking argument is not
looked at, but what stands in front of it must be right as far as it goes. The environment has no
say in it.
-/

set_option autoImplicit false

namespace CardContent.Command

/-- What help is asked about: the program or one of its commands, at length or not. -/
structure Topic where
  command? : Option String
  long : Bool
  deriving DecidableEq, Repr

/-- Whether an argument asks for help, and if it does, whether at length. -/
def Argument.asksHelp? : Argument → Option Bool
  | .long "help" none => some true
  | .short 'h' _ => some false
  | _ => none

/-- The arguments in front of the first that asks for help, and whether it does so at length. Behind
`--` none does. -/
def untilHelp : List String → Option (List String × Bool)
  | [] => none
  | arg :: rest =>
    match Argument.read arg with
    | .separator => none
    | argument =>
      match argument.asksHelp? with
      | some long => some ([], long)
      | none => (untilHelp rest).map fun found => (arg :: found.1, found.2)

/-- Whether the values that are given are right, each by itself. -/
def Given.sound (given : Given) : Bool :=
  given.value? .data != some "" && given.verbosity?.isSome && given.format?.isSome

/-- How many words may stand behind a command. -/
def wordsOf (name : String) : Nat :=
  if name = "show" then 1 else 0

/-- The topic of an asking argument, `front` being the arguments in front of it. -/
def topicBehind? (front : List String) (long : Bool) : Option Topic := do
  let (given, rest) ← readArguments commonKeys true Given.nothing front
  if !given.sound then none
  match rest with
  | [] => return ⟨none, long⟩
  | name :: rest =>
    let (behind, _) ← readArguments (← keysOf? name) false Given.nothing rest
    if behind.sound && behind.words.length ≤ wordsOf name then return ⟨some name, long⟩ else none

/-- The topic of `help` and of `help` with a command. -/
def topicOfCommand? (arguments : List String) : Option Topic := do
  let (given, rest) ← readArguments commonKeys true Given.nothing arguments
  if !given.sound then none
  match rest with
  | ["help"] => return ⟨none, true⟩
  | ["help", name] =>
    if (keysOf? name).isSome || name = "help" then return ⟨some name, true⟩ else none
  | _ => none

/-- The topic that a command line asks for help about, if it does. -/
def topic? (arguments : List String) : Option Topic :=
  match untilHelp arguments with
  | some (front, long) => topicBehind? front long
  | none => topicOfCommand? arguments

/-- What a command line comes to. -/
inductive Invocation where
  | asks (request : Request)
  | help (topic : Topic)
  | refused
  deriving DecidableEq, Repr

/-- Read a command line, `environment?` being the folder named by the environment (`Cli::parse`). -/
def Invocation.read (environment? : Option String) (arguments : List String) : Invocation :=
  match topic? arguments with
  | some topic => .help topic
  | none =>
    match Request.read environment? arguments with
    | some request => .asks request
    | none => .refused

end CardContent.Command
