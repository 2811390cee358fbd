/-!
# Options and words of a command line

An argument is an option if it begins with `-` and is more than that: `--name`, `--name=value`, or
one letter behind a single `-`, with the value right behind the letter or behind a `=`. An option
that takes a value and has none with it takes the next argument, which then must not look like an
option. Behind `--` every argument is a word. No option is given twice.
-/

set_option autoImplicit false

namespace CardContent.Command

/-- The options. -/
inductive Key where
  | data
  | verbosity
  | format
  | acquirable
  | defeatable
  | token
  deriving DecidableEq, Repr

namespace Key

/-- The long name of an option. -/
def long : Key → String
  | .data => "data"
  | .verbosity => "verbosity"
  | .format => "format"
  | .acquirable => "acquirable"
  | .defeatable => "defeatable"
  | .token => "token"

/-- The letter of an option, if it has one. -/
def letter? : Key → Option Char
  | .data => some 'd'
  | .verbosity => some 'v'
  | _ => none

/-- Whether an option takes a value. -/
def takesValue : Key → Bool
  | .data | .verbosity | .format => true
  | .acquirable | .defeatable | .token => false

end Key

/-- An argument by its form. -/
inductive Argument where
  | separator
  | long (name : String) (value? : Option String)
  | short (letter : Char) (behind : List Char)
  | word (text : String)
  deriving DecidableEq, Repr

/-- The form of an argument. -/
def Argument.read (text : String) : Argument :=
  match text.toList with
  | ['-', '-'] => .separator
  | '-' :: '-' :: rest =>
    .long (String.ofList (rest.takeWhile (· != '=')))
      (match rest.dropWhile (· != '=') with
        | [] => none
        | _ :: value => some (String.ofList value))
  | '-' :: letter :: behind => .short letter behind
  | _ => .word text

/-- Whether an argument can be the value of the option in front of it. -/
def Argument.isWord : Argument → Bool
  | .word _ => true
  | _ => false

/-- What a stretch of arguments gives. -/
structure Given where
  options : List (Key × String)
  words : List String
  deriving DecidableEq, Repr

namespace Given

/-- Nothing given. -/
def nothing : Given := ⟨[], []⟩

/-- The value of an option; the empty text for one that takes no value. -/
def value? (given : Given) (key : Key) : Option String :=
  given.options.lookup key

/-- Whether an option is given. -/
def has (given : Given) (key : Key) : Bool :=
  (given.value? key).isSome

/-- Give an option, which must not have been given before. -/
def option? (given : Given) (key : Key) (value : String) : Option Given :=
  if given.has key then none else some { given with options := (key, value) :: given.options }

/-- Give words. -/
def addWords (given : Given) (words : List String) : Given :=
  { given with words := given.words ++ words }

end Given

/-- The value right behind the letter of an option, if there is one. -/
def valueBehind : List Char → Option String
  | [] => none
  | '=' :: value => some (String.ofList value)
  | value => some (String.ofList value)

/-- Read arguments by the options that are allowed. If `stopAtWord` holds, reading stops at the
first word in front of any `--`, and the arguments from there on are left. -/
def readArguments (allowed : List Key) (stopAtWord : Bool) (given : Given) :
    List String → Option (Given × List String)
  | [] => some (given, [])
  | arg :: rest =>
    match Argument.read arg with
    | .separator => some (given.addWords rest, [])
    | .word text =>
      if stopAtWord then some (given, arg :: rest)
      else readArguments allowed stopAtWord (given.addWords [text]) rest
    | .long name value? =>
      match allowed.find? fun key => key.long = name with
      | none => none
      | some key =>
        match key.takesValue, value?, rest with
        | false, none, rest =>
          (given.option? key "").bind fun given => readArguments allowed stopAtWord given rest
        | true, some value, rest =>
          (given.option? key value).bind fun given => readArguments allowed stopAtWord given rest
        | true, none, value :: rest =>
          if (Argument.read value).isWord then
            (given.option? key value).bind fun given => readArguments allowed stopAtWord given rest
          else none
        | _, _, _ => none
    | .short letter behind =>
      match allowed.find? fun key => key.letter? = some letter with
      | none => none
      | some key =>
        match valueBehind behind, rest with
        | some value, rest =>
          (given.option? key value).bind fun given => readArguments allowed stopAtWord given rest
        | none, value :: rest =>
          if (Argument.read value).isWord then
            (given.option? key value).bind fun given => readArguments allowed stopAtWord given rest
          else none
        | none, [] => none

end CardContent.Command
