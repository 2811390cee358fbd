import CardContent.Command.Report
import CardContent.Content.Event
import CardContent.Log.Verbosity

/-!
# Sessions at a console

A program prints lines and logs events one after the other, and it may stop before it has done all
that it was to do. What it has printed and logged by then stays printed and logged. Whether an event
that is logged shows is settled at the moment at which it is logged, by the filter that was chosen
before.
-/

set_option autoImplicit false

namespace CardContent.Command

/-- Why a program stops. -/
inductive Stop where
  /-- Something failed, and is reported. -/
  | failed (failure : Failure)
  /-- The command line does not have the right form, which is said with this text. -/
  | refused (text : String)
  /-- The program cannot go on, which is said with this text. -/
  | crashed (text : String)
  deriving DecidableEq, Repr

namespace Stop

/-- The exit code of a program that stops. -/
def code : Stop → Nat
  | .failed _ => 1
  | .refused _ => 2
  | .crashed _ => 101

/-- What is said when a program stops. -/
def report : Stop → String
  | .failed failure => failure.report
  | .refused text | .crashed text => text

end Stop

/-- What stands at a console. -/
structure Console where
  /-- Which records are shown. -/
  filter : Log.Filter
  /-- The lines that were printed, in order. -/
  printed : List String
  /-- The events that were logged and are shown, in order. -/
  logged : List Event

/-- The console of a program that has begun. -/
def Console.fresh : Console := ⟨.off, [], []⟩

/-- Steps at a console, up to the end or to a stop. -/
abbrev Session := ExceptT Stop (StateM Console)

namespace Session

variable {α : Type}

/-- Go through a session from where a console stands. -/
def start (x : Session α) (console : Console) : Except Stop α × Console :=
  x.run.run console

/-- Choose how much is logged from here on (`logger::init`). -/
def choose (verbosity : Log.Verbosity) : Session Unit :=
  modify fun console => { console with filter := verbosity.filter }

/-- Print a line. -/
def printLine (line : String) : Session Unit :=
  modify fun console => { console with printed := console.printed ++ [line] }

/-- Log an event, which is shown if its level passes the filter (`StderrLogger::log`). -/
def log (event : Event) : Session Unit :=
  modify fun console =>
    if console.filter.shows event.level then { console with logged := console.logged ++ [event] }
    else console

/-- Stop. -/
def stop (reason : Stop) : Session α :=
  throw reason

/-- Go through a computation that logs, event by event, and take its outcome. An error is reported
with what was tried, which `context` says (`with_context`). -/
def follow (logged : Logged α) (context : Error → Failure) : Session α := do
  logged.events.forM log
  match logged.outcome with
  | .ok value => return value
  | .error error => stop (.failed (context error))

end Session

end CardContent.Command
