import CardContent.Card.Json
import CardContent.Command.Help
import CardContent.Command.Session
import CardContent.Content.Load
import CardContent.Json.Pretty

/-!
# The program

A command line is read and carried out as a session. Content or deck is read first, and what is
printed is printed line by line behind that. What is left at the end is a `Run`: the lines that were
printed, the events that were shown and why the program stopped if it did.

What the program finds around it is a `World`: the files, the environment, and what other parts than
this library decide.
-/

set_option autoImplicit false

namespace CardContent.Command

/-- What a program finds around it. -/
structure World where
  /-- The bytes of the file at a path. -/
  fileAt : String → Except FileFault ByteArray
  /-- The folder that is named by the environment. -/
  folder? : Option String
  /-- What becomes of a sum that 32 bits cannot hold. -/
  overflow : Overflow
  /-- What is said when such a sum stops the program. -/
  overflowText : String
  /-- The help about a topic. -/
  help : Topic → String
  /-- What is said of a command line that does not have the right form. -/
  refusal : List String → String

/-! ## What is printed -/

open Session (printLine)

/-- Print cards, each as a line, or all of them as an array. -/
def printCards (format : Format) (cards : List Card) : Session Unit :=
  match format with
  | .text => cards.forM fun card => printLine card.display
  | .json => printLine (Json.arr (cards.map Card.toJson)).pretty

/-- A number in three columns and what it belongs to. -/
def numbered (number : Nat) (text : String) : String :=
  Text.alignRight 3 (Numeral.natText number) ++ "  " ++ text

/-- Print the effects of a catalog with their numbers. -/
def printEffects (format : Format) (catalog : Catalog) : Session Unit :=
  match format with
  | .text => catalog.entries.forM fun entry => printLine (numbered entry.1 entry.2)
  | .json =>
    printLine (Json.arr (catalog.entries.map fun entry =>
      .obj [("description", .str entry.2), ("index", .int entry.1)])).pretty

/-- Print one card, and its token behind it if asked for. -/
def printCard (format : Format) (token : Bool) (card : Card) : Session Unit := do
  match format with
  | .text => printLine card.display
  | .json => printLine card.toJson.pretty
  if token then printLine card.effect.token

/-- Print a deck, its entries in order and then the total. -/
def printDeck (world : World) (deck : Deck) : Session Unit := do
  deck.toList.forM fun entry => printLine (numbered entry.count.toNat entry.name)
  match deck.total? world.overflow with
  | some total => printLine (numbered total.toNat "total")
  | none => Session.stop (.crashed world.overflowText)

/-! ## Commands -/

section Commands

variable [Name.Spelling]

/-- The cards of a content that are listed: all, or those of one kind. -/
def listed (content : Content) : Option Kind → List Card
  | none => content.cards
  | some kind => content.compendium.ofKind kind

/-- Answer a query from decoded content. -/
def answer (content : Content) : Query → Session Unit
  | .cards format only => printCards format (listed content only)
  | .effects format => printEffects format content.catalog
  | .card name format token =>
    match content.compendium.card? name with
    | none => Session.stop (.failed (.noCard name))
    | some card => printCard format token card

/-- Carry out a command on the files of a folder. -/
def perform (world : World) (folder : String) : Action → Session Unit
  | .content query => do
    let loaded := (LoadGuard.fresh.load (.folder folder world.fileAt)).1
    answer (← Session.follow loaded (.load folder)) query
  | .deck => do
    printDeck world (← Session.follow (Deck.read (.folder folder world.fileAt)) (.counts folder))

/-- Carry out a request. -/
def Request.session (world : World) (request : Request) : Session Unit := do
  Session.choose request.verbosity
  perform world request.folder request.action

/-- Read a command line and carry it out (`main`). -/
def program (world : World) (arguments : List String) : Session Unit :=
  match Invocation.read world.folder? arguments with
  | .asks request => request.session world
  | .help topic => printLine (world.help topic)
  | .refused => Session.stop (.refused (world.refusal arguments))

end Commands

/-! ## Runs -/

/-- What is left of a program that has ended. -/
structure Run where
  /-- Why it stopped, if it did not come to its end. -/
  stop? : Option Stop
  console : Console

/-- Go through a session at a fresh console. -/
def Session.run (x : Session Unit) : Run :=
  match x.start .fresh with
  | (.ok (), console) => ⟨none, console⟩
  | (.error stop, console) => ⟨some stop, console⟩

namespace Run

variable (run : Run)

/-- The exit code. -/
def code : Nat :=
  match run.stop? with
  | none => 0
  | some stop => stop.code

/-- What goes to the standard output. -/
def output : String :=
  String.join (run.console.printed.map fun line => line ++ "\n")

/-- The records that are shown, `elapsed` standing for the time that decoding took. -/
def records (elapsed : String) : List Log.Record :=
  run.console.logged.map (Event.record elapsed)

/-- What is said of a program that stopped. -/
def report : String :=
  (run.stop?.map Stop.report).getD ""

/-- What goes to the error stream: the records and then the report. -/
def errorOutput (elapsed : String) : String :=
  String.join ((run.records elapsed).map Log.Record.line) ++ run.report

end Run

variable [Name.Spelling]

/-- Carry out a request. -/
def Request.run (world : World) (request : Request) : Run :=
  (request.session world).run

/-- Run the program on a command line. -/
def execute (world : World) (arguments : List String) : Run :=
  (program world arguments).run

end CardContent.Command
