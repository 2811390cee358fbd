import CardContent.Card.Display
import CardContent.Error
import CardContent.Log.Level

/-!
# What is logged while content is read

An event is what happened; its record is the line that tells of it. The time that decoding took is
no part of the event and is filled in when the record is written.

A computation that logs carries its events along with its outcome (`Logged`), so that what is
logged can be reasoned about like any other result.
-/

set_option autoImplicit false

namespace CardContent

/-- Something that happened while content was read. -/
inductive Event where
  | linesRead (count : Nat) (path : String)
  | rowsRead (count : Nat) (path : String)
  | effectsLoaded (count : Nat)
  | cardDecoded (card : Card)
  | allDecoded (cards acquirables defeatables : Nat)
  | nameTaken (name : String)
  deriving Repr

namespace Event

/-- How weighty an event is. -/
def level : Event → Log.Level
  | .linesRead .. | .rowsRead .. | .effectsLoaded _ => .debug
  | .cardDecoded _ => .trace
  | .allDecoded .. => .info
  | .nameTaken _ => .warn

/-- The text of an event, decoding having taken the time `elapsed`. -/
def text (elapsed : String) : Event → String
  | .linesRead count path => "read " ++ Numeral.natText count ++ " lines from " ++ path
  | .rowsRead count path => "read " ++ Numeral.natText count ++ " rows from " ++ path
  | .effectsLoaded count => "loaded " ++ Numeral.natText count ++ " effect descriptions"
  | .cardDecoded card => "decoded " ++ card.display
  | .allDecoded cards acquirables defeatables =>
    "decoded " ++ Numeral.natText cards ++ " cards (" ++ Numeral.natText acquirables ++
      " acquirable, " ++ Numeral.natText defeatables ++ " defeatable) in " ++ elapsed
  | .nameTaken name => "duplicate card name '" ++ name ++ "', later definition wins"

/-- The record of an event. -/
def record (elapsed : String) (event : Event) : Log.Record where
  level := event.level
  text := event.text elapsed

end Event

/-- The records that a filter shows of events. -/
def Log.Filter.records (filter : Log.Filter) (elapsed : String) (events : List Event) :
    List Log.Record :=
  (events.filter fun event => filter.shows event.level).map (Event.record elapsed)

/-- A value or an error, and the events on the way there. -/
structure Logged (α : Type) where
  events : List Event
  outcome : Except Error α

namespace Logged

variable {α β : Type}

/-- A value, with nothing logged. -/
def ok (a : α) : Logged α := ⟨[], .ok a⟩

/-- An error, with nothing logged. -/
def error (e : Error) : Logged α := ⟨[], .error e⟩

/-- An outcome, with nothing logged. -/
def ofExcept (outcome : Except Error α) : Logged α := ⟨[], outcome⟩

/-- Events one after the other. -/
def log (events : List Event) : Logged Unit := ⟨events, .ok ()⟩

/-- Go on with a value, or stop at an error; events are kept either way. -/
def andThen (x : Logged α) (next : α → Logged β) : Logged β :=
  match x.outcome with
  | .error e => ⟨x.events, .error e⟩
  | .ok a => ⟨x.events ++ (next a).events, (next a).outcome⟩

instance : Monad Logged where
  pure := ok
  bind := andThen

@[simp] theorem outcome_pure (a : α) : (pure a : Logged α).outcome = .ok a := rfl

@[simp] theorem outcome_log (events : List Event) : (log events).outcome = .ok () := rfl

@[simp] theorem outcome_ofExcept (outcome : Except Error α) :
    (ofExcept outcome).outcome = outcome := rfl

@[simp] theorem outcome_bind (x : Logged α) (next : α → Logged β) :
    (x >>= next).outcome = x.outcome >>= fun a => (next a).outcome := by
  show (andThen x next).outcome = _
  unfold andThen
  cases x.outcome <;> rfl

end Logged

end CardContent
