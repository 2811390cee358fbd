import CardContent.Command.Run
import Mathlib

/-!
# What a session does

A session that chooses no filter goes the same way at every console: what it prints, what it logs
and whether it stops do not depend on what stands there already, nor on the filter, which only
decides which of the events are kept. `Does` says which way a session goes, step by step.

* `Console.after lines events` is a console behind some more lines and events.
* `Session.Does x result lines events` says that a session prints `lines`, logs `events` and comes
  to `result`.
* `Performs world folder action result lines events` lists what a command may do.

Results:
* `Does.bind`, `Does.bind_stop`, `does_forM`, `does_follow`: the steps of a session.
* `exists_performs`: a command does one of the listed things.
* `run_of_performs`: what is left of a program that carries out a request.
-/

set_option autoImplicit false

namespace CardContent.Command

/-- A console behind some more lines and events, of which it keeps those that its filter shows. -/
def Console.after (console : Console) (lines : List String) (events : List Event) : Console where
  filter := console.filter
  printed := console.printed ++ lines
  logged := console.logged ++ events.filter fun event => console.filter.shows event.level

theorem Console.after_nil (console : Console) : console.after [] [] = console := by
  simp [after]

theorem Console.after_after (console : Console) (lines more : List String)
    (events others : List Event) :
    (console.after lines events).after more others =
      console.after (lines ++ more) (events ++ others) := by
  simp [after]

namespace Session

variable {α β : Type} {result : Except Stop β} {lines more : List String}
  {events others : List Event}

/-- A session prints `lines`, logs `events` and comes to `result`, whatever its console is. -/
def Does (x : Session α) (result : Except Stop α) (lines : List String) (events : List Event) :
    Prop :=
  ∀ console, x.start console = (result, console.after lines events)

theorem does_pure (a : α) : (pure a : Session α).Does (.ok a) [] [] := fun console => by
  rw [console.after_nil]
  rfl

theorem does_stop (reason : Stop) : (stop reason : Session α).Does (.error reason) [] [] :=
  fun console => by
    rw [console.after_nil]
    rfl

theorem does_printLine (line : String) : (printLine line).Does (.ok ()) [line] [] :=
  fun console => by
    rw [Console.after, List.filter_nil, List.append_nil]
    rfl

theorem does_log (event : Event) : (log event).Does (.ok ()) [] [event] := fun console => by
  show (Except.ok (), if console.filter.shows event.level then _ else console) = _
  cases hshows : console.filter.shows event.level with
  | true => simp [Console.after, hshows]
  | false => simp [Console.after, hshows]

/-- A session goes on from where the one in front has come to, unless that has stopped. -/
theorem start_bind (x : Session α) (f : α → Session β) (console : Console) :
    (x >>= f).start console =
      match x.start console with
      | (.ok a, next) => (f a).start next
      | (.error reason, next) => (.error reason, next) := by
  simp only [start, ExceptT.run_bind, StateT.run_bind]
  rcases hx : (ExceptT.run x).run console with ⟨reason | a, next⟩ <;> rfl

/-- A session that goes on behind another one. -/
theorem Does.bind {x : Session α} {f : α → Session β} {a : α} (hx : x.Does (.ok a) lines events)
    (hf : (f a).Does result more others) :
    (x >>= f).Does result (lines ++ more) (events ++ others) := fun console => by
  rw [start_bind, hx console, ← console.after_after]
  exact hf _

/-- Behind a stop nothing is done. -/
theorem Does.bind_stop {x : Session α} {f : α → Session β} {reason : Stop}
    (hx : x.Does (.error reason) lines events) :
    (x >>= f).Does (.error reason) lines events := fun console => by
  rw [start_bind, hx console]

/-- Steps for the members of a list, one after the other. -/
theorem does_forM {step : α → Session Unit} {line : α → List String} {event : α → List Event} :
    ∀ xs : List α, (∀ a ∈ xs, (step a).Does (.ok ()) (line a) (event a)) →
      (xs.forM step).Does (.ok ()) (xs.flatMap line) (xs.flatMap event)
  | [], _ => does_pure ()
  | a :: xs, h => by
    rw [List.flatMap_cons, List.flatMap_cons]
    exact (h a List.mem_cons_self).bind
      (does_forM xs fun b hb => h b (List.mem_cons_of_mem a hb))

/-- Lines printed one after the other. -/
theorem does_printLines (text : α → String) (xs : List α) :
    (xs.forM fun a => printLine (text a)).Does (.ok ()) (xs.map text) [] := by
  have h := does_forM xs fun a _ => does_printLine (text a)
  have hnone : (xs.flatMap fun _ => ([] : List Event)) = [] :=
    List.flatMap_eq_nil_iff.mpr fun _ _ => rfl
  rw [hnone, ← List.map_eq_flatMap] at h
  exact h

/-- Events logged one after the other. -/
theorem does_logs (events : List Event) : (events.forM log).Does (.ok ()) [] events := by
  have h := does_forM events fun event _ => does_log event
  have hnone : (events.flatMap fun _ => ([] : List String)) = [] :=
    List.flatMap_eq_nil_iff.mpr fun _ _ => rfl
  rw [hnone, List.flatMap_singleton'] at h
  exact h

/-- A computation that gives a value is followed to it, and nothing is printed. -/
theorem does_follow_of_ok {logged : Logged α} {a : α} (h : logged.outcome = .ok a)
    (context : Error → Failure) :
    (follow logged context).Does (.ok a) [] logged.events := by
  have hlogs := (does_logs logged.events).bind (f := fun _ => (return a : Session α)) (does_pure a)
  rw [List.append_nil, List.append_nil] at hlogs
  unfold follow
  simp only [h]
  exact hlogs

/-- A computation that fails is followed to its error, and nothing is printed. -/
theorem does_follow_of_error {logged : Logged α} {e : Error} (h : logged.outcome = .error e)
    (context : Error → Failure) :
    (follow logged context).Does (.error (.failed (context e))) [] logged.events := by
  have hlogs := (does_logs logged.events).bind
    (f := fun _ => (stop (.failed (context e)) : Session α)) (does_stop _)
  rw [List.append_nil, List.append_nil] at hlogs
  unfold follow
  simp only [h]
  exact hlogs

end Session

/-! ## Commands -/

/-- The lines in which cards are listed. -/
def listLines (format : Format) (cards : List Card) : List String :=
  match format with
  | .text => cards.map Card.display
  | .json => [(Json.arr (cards.map Card.toJson)).pretty]

/-- The lines in which the effects of a catalog are listed. -/
def effectLines (format : Format) (catalog : Catalog) : List String :=
  match format with
  | .text => catalog.entries.map fun entry => numbered entry.1 entry.2
  | .json => [(Json.arr (catalog.entries.map fun entry =>
      .obj [("description", .str entry.2), ("index", .int entry.1)])).pretty]

/-- The line, or the indented object, by which one card is shown. -/
def Format.sheet (format : Format) (card : Card) : String :=
  match format with
  | .text => card.display
  | .json => card.toJson.pretty

/-- The lines in which one card is shown. -/
def sheetLines (format : Format) (token : Bool) (card : Card) : List String :=
  format.sheet card :: if token then [card.effect.token] else []

/-- The lines of the entries of a deck. -/
def entryLines (deck : Deck) : List String :=
  deck.toList.map fun entry => numbered entry.count.toNat entry.name

open Session

theorem does_printCards (format : Format) (cards : List Card) :
    (printCards format cards).Does (.ok ()) (listLines format cards) [] := by
  cases format with
  | text => exact does_printLines Card.display cards
  | json => exact does_printLine _

theorem does_printCard (format : Format) (token : Bool) (card : Card) :
    (printCard format token card).Does (.ok ()) (sheetLines format token card) [] := by
  have htoken : (if token then printLine card.effect.token else pure () : Session Unit).Does
      (.ok ()) (if token then [card.effect.token] else []) [] := by
    cases token with
    | true => exact does_printLine _
    | false => exact does_pure ()
  cases format with
  | text => exact (does_printLine card.display).bind htoken
  | json => exact (does_printLine card.toJson.pretty).bind htoken

theorem does_printEffects (format : Format) (catalog : Catalog) :
    (printEffects format catalog).Does (.ok ()) (effectLines format catalog) [] := by
  cases format with
  | text => exact does_printLines _ _
  | json => exact does_printLine _

/-- The entries of a deck are printed in front of the total, whether there is a total or not. -/
theorem does_printDeck {world : World} {deck : Deck} {result : Except Stop Unit}
    {lines : List String}
    (h : (match deck.total? world.overflow with
      | some total => printLine (numbered total.toNat "total")
      | none => stop (.crashed world.overflowText)).Does result lines []) :
    (printDeck world deck).Does result (entryLines deck ++ lines) [] :=
  (does_printLines _ deck.toList).bind h

variable [Name.Spelling] {world : World} {folder : String} {action : Action}
  {result : Except Stop Unit} {lines : List String} {events : List Event}

/-- What a command may do. -/
inductive Performs (world : World) (folder : String) :
    Action → Except Stop Unit → List String → List Event → Prop where
  /-- The content cannot be decoded. -/
  | unloaded {query : Query} {e : Error}
      (h : (Content.decode (.folder folder world.fileAt)).outcome = .error e) :
      Performs world folder (.content query) (.error (.failed (.load folder e))) []
        (Content.decode (.folder folder world.fileAt)).events
  /-- Cards are listed. -/
  | cards {format : Format} {only : Option Kind} {content : Content}
      (h : (Content.decode (.folder folder world.fileAt)).outcome = .ok content) :
      Performs world folder (.content (.cards format only)) (.ok ())
        (listLines format (listed content only))
        (Content.decode (.folder folder world.fileAt)).events
  /-- Effects are listed. -/
  | effects {format : Format} {content : Content}
      (h : (Content.decode (.folder folder world.fileAt)).outcome = .ok content) :
      Performs world folder (.content (.effects format)) (.ok ())
        (effectLines format content.catalog)
        (Content.decode (.folder folder world.fileAt)).events
  /-- There is no card of a name. -/
  | noCard {name : String} {format : Format} {token : Bool} {content : Content}
      (h : (Content.decode (.folder folder world.fileAt)).outcome = .ok content)
      (hcard : content.compendium.card? name = none) :
      Performs world folder (.content (.card name format token)) (.error (.failed (.noCard name)))
        [] (Content.decode (.folder folder world.fileAt)).events
  /-- A card is shown. -/
  | card {name : String} {format : Format} {token : Bool} {content : Content} {card : Card}
      (h : (Content.decode (.folder folder world.fileAt)).outcome = .ok content)
      (hcard : content.compendium.card? name = some card) :
      Performs world folder (.content (.card name format token)) (.ok ())
        (sheetLines format token card) (Content.decode (.folder folder world.fileAt)).events
  /-- The deck cannot be read. -/
  | unread {e : Error} (h : (Deck.read (.folder folder world.fileAt)).outcome = .error e) :
      Performs world folder .deck (.error (.failed (.counts folder e))) []
        (Deck.read (.folder folder world.fileAt)).events
  /-- The deck is listed. -/
  | deck {deck : Deck} {total : UInt32}
      (h : (Deck.read (.folder folder world.fileAt)).outcome = .ok deck)
      (htotal : deck.total? world.overflow = some total) :
      Performs world folder .deck (.ok ()) (entryLines deck ++ [numbered total.toNat "total"])
        (Deck.read (.folder folder world.fileAt)).events
  /-- The entries of the deck are listed, and the total stops the program. -/
  | overflow {deck : Deck} (h : (Deck.read (.folder folder world.fileAt)).outcome = .ok deck)
      (htotal : deck.total? world.overflow = none) :
      Performs world folder .deck (.error (.crashed world.overflowText)) (entryLines deck)
        (Deck.read (.folder folder world.fileAt)).events

theorem does_content_of_ok {content : Content} {query : Query}
    (h : (Content.decode (.folder folder world.fileAt)).outcome = .ok content)
    (hanswer : (answer content query).Does result lines []) :
    (perform world folder (.content query)).Does result lines
      (Content.decode (.folder folder world.fileAt)).events := by
  have hdoes := (does_follow_of_ok h (.load folder)).bind (f := (answer · query)) hanswer
  rwa [List.append_nil] at hdoes

theorem does_deck_of_ok {deck : Deck}
    (h : (Deck.read (.folder folder world.fileAt)).outcome = .ok deck)
    (hprint : (printDeck world deck).Does result lines []) :
    (perform world folder .deck).Does result lines
      (Deck.read (.folder folder world.fileAt)).events := by
  have hdoes := (does_follow_of_ok h (.counts folder)).bind (f := printDeck world) hprint
  rwa [List.append_nil] at hdoes

/-- What a command may do, it does. -/
theorem does_of_performs (h : Performs world folder action result lines events) :
    (perform world folder action).Does result lines events := by
  cases h with
  | unloaded h => exact (does_follow_of_error h (.load folder)).bind_stop
  | cards h => exact does_content_of_ok h (does_printCards _ _)
  | effects h => exact does_content_of_ok h (does_printEffects _ _)
  | noCard h hcard =>
    refine does_content_of_ok h ?_
    simp only [answer, hcard]
    exact does_stop _
  | card h hcard =>
    refine does_content_of_ok h ?_
    simp only [answer, hcard]
    exact does_printCard _ _ _
  | unread h => exact (does_follow_of_error h (.counts folder)).bind_stop
  | deck h htotal =>
    refine does_deck_of_ok h (does_printDeck ?_)
    rw [htotal]
    exact does_printLine _
  | overflow h htotal =>
    have hprint : (printDeck world _).Does _ (entryLines _ ++ []) [] := does_printDeck (by
      rw [htotal]
      exact does_stop _)
    rw [List.append_nil] at hprint
    exact does_deck_of_ok h hprint

/-- **A command does one of the listed things.** -/
theorem exists_performs (world : World) (folder : String) (action : Action) :
    ∃ result lines events, Performs world folder action result lines events := by
  cases action with
  | deck =>
    cases hdeck : (Deck.read (.folder folder world.fileAt)).outcome with
    | error e => exact ⟨_, _, _, .unread hdeck⟩
    | ok deck =>
      cases htotal : deck.total? world.overflow with
      | none => exact ⟨_, _, _, .overflow hdeck htotal⟩
      | some total => exact ⟨_, _, _, .deck hdeck htotal⟩
  | content query =>
    cases hdecode : (Content.decode (.folder folder world.fileAt)).outcome with
    | error e => exact ⟨_, _, _, .unloaded hdecode⟩
    | ok content =>
      cases query with
      | cards format only => exact ⟨_, _, _, .cards hdecode⟩
      | effects format => exact ⟨_, _, _, .effects hdecode⟩
      | card name format token =>
        cases hcard : content.compendium.card? name with
        | none => exact ⟨_, _, _, .noCard hdecode hcard⟩
        | some card => exact ⟨_, _, _, .card hdecode hcard⟩

/-! ## Runs -/

/-- Why a session stopped, if it did. -/
def stopOf? : Except Stop Unit → Option Stop
  | .ok () => none
  | .error reason => some reason

/-- **What is left of a request**: all lines of its command, and those events that the filter of the
request shows. -/
theorem run_of_performs {request : Request}
    (h : Performs world request.folder request.action result lines events) :
    request.run world = ⟨stopOf? result, request.verbosity.filter, lines,
      events.filter fun event => request.verbosity.filter.shows event.level⟩ := by
  have hstart : (request.session world).start .fresh =
      (result, (⟨request.verbosity.filter, [], []⟩ : Console).after lines events) := by
    rw [Request.session, start_bind]
    exact does_of_performs h _
  rw [Request.run, Session.run, hstart]
  rcases result with reason | ⟨⟩ <;> rfl

end CardContent.Command
