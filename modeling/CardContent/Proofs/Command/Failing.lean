import CardContent.Proofs.Command.Listing
import CardContent.Proofs.Content.Resolved
import CardContent.Proofs.Deck.Total
import CardContent.Proofs.Effect.Printing

/-!
# When a command fails

A command does everything that can fail before it prints, so it prints all of its result or nothing.
There are three reasons for it to fail, and each belongs to some of the commands only. Apart from
these, the total of a deck can stop the program where it needs more than 32 bits; the entries are
printed by then.

* `DeckFails folder fileAt` lists what can be wrong with the deck list of a folder.
* `Fails fileAt request` lists the reasons for which a request fails.
* `Crashes world request` says that a request asks for a deck whose total stops the program.
* `Action.reads` are the resources that an action reads.
* `Finds source name card` says that `card` is the last card that goes by a name.
* `Shows source name format token output` says that the card that a name finds is told of.
* `Ending world request run` is what is true of the end of a request.

Results:
* `deck_fails_iff`: reading the deck fails exactly if something is wrong with the list.
* `fails_iff_of_performs`, `crashes_iff_of_performs`: a command fails for a reason, and only so.
* `lines_of_failed`: a command that fails has printed nothing.
* `shows_of_performs`: what is printed for a name.
* `run_congr`: a run sees no files but those of the resources that its action reads.
* `ends_of_read`: how a command line ends.
-/

set_option autoImplicit false

namespace CardContent.Command

/-- What can be wrong with the deck list of a folder: it is missing, it cannot be read, it is no
text, or it has a line that a deck list may not have. -/
inductive DeckFails (folder : String) (fileAt : String → Except FileFault ByteArray) : Prop where
  | unreadable {fault : FileFault}
      (h : fileAt (pathIn folder Resource.counts.name) = .error fault)
  | notText {bytes : ByteArray} (hbytes : fileAt (pathIn folder Resource.counts.name) = .ok bytes)
      (h : Utf8.text? bytes = none)
  | line {bytes : ByteArray} {text line : String}
      (hbytes : fileAt (pathIn folder Resource.counts.name) = .ok bytes)
      (htext : Utf8.text? bytes = some text) (hmem : line ∈ Text.lines text)
      (h : ∀ found?, ¬DeckEntry.IsLine line.toList found?)

/-- The resources that an action reads. -/
def Action.reads : Action → Resource → Prop
  | .deck, resource => resource = .counts
  | .content _, resource => resource ≠ .counts

/-- A text tells of a card: in a line, or in an object of which the card can be read. -/
inductive Tells (card : Card) : Format → String → Prop where
  | text {line : String} (h : card.Told line) : Tells card .text line
  | json {value : Json} (hread : Card.ofJson? value = some card)
      (hpiece : card.WrittenIn value.pretty) : Tells card .json value.pretty

theorem tells_sheet (format : Format) (card : Card) : Tells card format (format.sheet card) := by
  cases format with
  | text => exact .text card.told_display
  | json => exact .json card.ofJson?_toJson (card.writtenIn_render 0)

section Files

variable {folder name : String} {fileAt other : String → Except FileFault ByteArray}

theorem lines_congr (h : other (pathIn folder name) = fileAt (pathIn folder name)) :
    (Source.folder folder other).lines name = (Source.folder folder fileAt).lines name := by
  simp only [Source.folder, h]

theorem rows_congr (h : other (pathIn folder name) = fileAt (pathIn folder name)) :
    (Source.folder folder other).rows name = (Source.folder folder fileAt).rows name := by
  simp only [Source.folder, h]

end Files

section Endings

variable [Name.Spelling]

/-- The reasons for which a request fails. -/
inductive Fails (fileAt : String → Except FileFault ByteArray) : Request → Prop where
  /-- The deck was asked for and cannot be read. -/
  | deck {folder : String} {verbosity : Log.Verbosity} (h : DeckFails folder fileAt) :
      Fails fileAt ⟨folder, verbosity, .deck⟩
  /-- Content was asked for and cannot be decoded. -/
  | content {folder : String} {verbosity : Log.Verbosity} {query : Query} {e : Error}
      (h : (Content.decode (.folder folder fileAt)).outcome = .error e) :
      Fails fileAt ⟨folder, verbosity, .content query⟩
  /-- A card was asked for by a name that no card of the content goes by. -/
  | noCard {folder name : String} {verbosity : Log.Verbosity} {format : Format} {token : Bool}
      {content : Content} (hdecode : (Content.decode (.folder folder fileAt)).outcome = .ok content)
      (h : ∀ card ∈ content.cards, Name.key card.name ≠ Name.key name) :
      Fails fileAt ⟨folder, verbosity, .content (.card name format token)⟩

/-- The deck was asked for, its counts make up more than 32 bits hold, and such a sum stops the
program. -/
inductive Crashes (world : World) : Request → Prop where
  | deck {folder : String} {verbosity : Log.Verbosity} {deck : Deck}
      (hread : (Deck.read (.folder folder world.fileAt)).outcome = .ok deck)
      (hstops : world.overflow = .stops) (h : 2 ^ 32 ≤ deck.counted) :
      Crashes world ⟨folder, verbosity, .deck⟩

/-- `card` is the last card whose name has the same key as `name`, the defeatable cards coming
behind the acquirable ones. -/
inductive Finds (source : Source) (name : String) (card : Card) : Prop where
  | last {content : Content} {lines : List String} {rows : Kind → List Csv.Row}
      {cards : Kind → List Card} (hdecoded : Content.Decoded source content lines rows cards)
      (h : ((cards .acquirable ++ cards .defeatable).filter fun card =>
        Name.key card.name = Name.key name).getLast? = some card)

/-- A text tells of the card that a name finds, and if a token was asked for, the line behind it
reads as what the card does. -/
inductive Shows (source : Source) (name : String) (format : Format) : Bool → String → Prop where
  | card {card : Card} {text : String} (hfinds : Finds source name card)
      (htells : Tells card format text) : Shows source name format false (asLines [text])
  | token {card : Card} {text line : String} {descriptions : List String}
      (hfinds : Finds source name card) (htells : Tells card format text)
      (hdescriptions : (source.lines Resource.effects.name).outcome = .ok descriptions)
      (hread : Effect.parse (.ofList descriptions) line = .ok card.effect) :
      Shows source name format true (asLines [text, line])

/-- How a request ends. -/
structure Ending (world : World) (request : Request) (run : Run) : Prop where
  /-- It fails for a reason. -/
  code_eq_one_iff : run.code = 1 ↔ Fails world.fileAt request
  /-- Without a reason it succeeds, unless a total stops the program. -/
  code_eq_zero_iff : run.code = 0 ↔ ¬Fails world.fileAt request ∧ ¬Crashes world request
  /-- The total of a deck stops the program where it needs more than 32 bits. -/
  code_eq_crash_iff : run.code = 101 ↔ Crashes world request
  /-- If it fails, nothing is printed. -/
  output_eq_empty : Fails world.fileAt request → run.output = ""
  /-- If it succeeds, nothing is reported, and the log is all that goes to the error stream. -/
  report_eq_empty : run.code = 0 → run.report = "" ∧
    ∀ elapsed, run.errorOutput elapsed = String.join ((run.records elapsed).map Log.Record.line)
  /-- If it succeeds, a card that was asked for by name is shown, the last one that the name
  finds. -/
  shows : run.code = 0 → ∀ {name format token},
    request.action = .content (.card name format token) →
      Shows (.folder request.folder world.fileAt) name format token run.output
  /-- Other files than those that are read do not matter. -/
  run_congr : ∀ fileAt : String → Except FileFault ByteArray,
    (∀ resource, request.action.reads resource →
      fileAt (pathIn request.folder resource.name) =
        world.fileAt (pathIn request.folder resource.name)) →
    request.run { world with fileAt } = run

variable {world : World} {request : Request} {result : Except Stop Unit} {lines : List String}
  {events : List Event}

/-! ## The deck -/

/-- **Reading the deck fails** exactly if something is wrong with the list. -/
theorem deck_fails_iff {folder : String} {fileAt : String → Except FileFault ByteArray} :
    (∃ e, (Deck.read (.folder folder fileAt)).outcome = .error e) ↔ DeckFails folder fileAt := by
  rw [Deck.outcome_read]
  cases hbytes : fileAt (pathIn folder Resource.counts.name) with
  | error fault =>
    refine iff_of_true ?_ (.unreadable hbytes)
    cases fault <;> exact ⟨_, by simp only [Source.folder, hbytes]; rfl⟩
  | ok bytes =>
    cases htext : Utf8.text? bytes with
    | none =>
      refine iff_of_true ⟨.notText, ?_⟩ (.notText hbytes htext)
      simp only [Source.folder, hbytes, htext]
      rfl
    | some text =>
      rw [Source.outcome_lines_folder hbytes htext]
      refine Deck.ofLines_eq_error_iff.trans ?_
      constructor
      · rintro ⟨line, hmem, h⟩
        exact .line hbytes htext hmem h
      · rintro (hfault | ⟨hsame, hnone⟩ | ⟨hsame, hsome, hmem, h⟩)
        · cases hbytes.symm.trans hfault
        · cases hbytes.symm.trans hsame
          cases htext.symm.trans hnone
        · cases hbytes.symm.trans hsame
          cases htext.symm.trans hsome
          exact ⟨_, hmem, h⟩

/-! ## Cards by name -/

/-- What decoded content has no card for. -/
theorem card?_eq_none_iff {source : Source} {content : Content} {name : String}
    (h : (Content.decode source).outcome = .ok content) :
    content.compendium.card? name = none ↔
      ∀ card ∈ content.cards, Name.key card.name ≠ Name.key name := by
  obtain ⟨lines, rows, cards, hdecoded⟩ := Content.decode_eq_ok_iff.mp h
  rw [hdecoded.compendium, hdecoded.cards_eq, Compendium.card?_ofCards, List.getLast?_eq_none_iff,
    List.filter_eq_nil_iff]
  simp only [decide_eq_true_eq, ne_eq]

/-- The card that decoded content has for a name. -/
theorem finds_iff {source : Source} {content : Content} {name : String} {card : Card}
    (h : (Content.decode source).outcome = .ok content) :
    Finds source name card ↔ content.compendium.card? name = some card := by
  constructor
  · rintro ⟨hdecoded, hlast⟩
    obtain rfl := Except.ok.inj (h.symm.trans (Content.decode_eq_ok_iff.mpr ⟨_, _, _, hdecoded⟩))
    rw [hdecoded.compendium, Compendium.card?_ofCards, hlast]
  · intro hcard
    obtain ⟨lines, rows, cards, hdecoded⟩ := Content.decode_eq_ok_iff.mp h
    rw [hdecoded.compendium, Compendium.card?_ofCards] at hcard
    exact .last hdecoded hcard

/-! ## What a command does -/

/-- **A command fails for a reason**, and only for one. -/
theorem fails_iff_of_performs
    (h : Performs world request.folder request.action result lines events) :
    Fails world.fileAt request ↔ ∃ failure, result = .error (.failed failure) := by
  obtain ⟨folder, verbosity, action⟩ := request
  have hcontent : ∀ {query content}, (Content.decode (.folder folder world.fileAt)).outcome =
      .ok content → (∀ {name format token}, query = .card name format token →
        content.compendium.card? name ≠ none) →
          ¬Fails world.fileAt ⟨folder, verbosity, .content query⟩ := by
    intro query content hdecode hcard hfails
    cases hfails with
    | content h => cases hdecode.symm.trans h
    | noCard h hnone =>
      cases hdecode.symm.trans h
      exact hcard rfl ((card?_eq_none_iff hdecode).mpr hnone)
  have hdeck : ∀ {deck}, (Deck.read (.folder folder world.fileAt)).outcome = .ok deck →
      ¬Fails world.fileAt ⟨folder, verbosity, .deck⟩ := by
    rintro deck hread ⟨h⟩
    obtain ⟨e, he⟩ := deck_fails_iff.mpr h
    cases hread.symm.trans he
  cases h with
  | unloaded h => exact iff_of_true (.content h) ⟨_, rfl⟩
  | noCard h hcard => exact iff_of_true (.noCard h ((card?_eq_none_iff h).mp hcard)) ⟨_, rfl⟩
  | unread h => exact iff_of_true (.deck (deck_fails_iff.mp ⟨_, h⟩)) ⟨_, rfl⟩
  | cards h | effects h =>
    exact iff_of_false (hcontent h fun heq => by cases heq) (by rintro ⟨_, ⟨⟩⟩)
  | card h hcard =>
    refine iff_of_false (hcontent h fun heq => ?_) (by rintro ⟨_, ⟨⟩⟩)
    cases heq
    rw [hcard]
    exact Option.some_ne_none _
  | deck h | overflow h => exact iff_of_false (hdeck h) (by rintro ⟨_, ⟨⟩⟩)

/-- **A total stops the program** where it needs too many bits, and nothing else does. -/
theorem crashes_iff_of_performs
    (h : Performs world request.folder request.action result lines events) :
    Crashes world request ↔ ∃ text, result = .error (.crashed text) := by
  obtain ⟨folder, verbosity, action⟩ := request
  have htotal : ∀ {deck : Deck}, (Deck.read (.folder folder world.fileAt)).outcome = .ok deck →
      (Crashes world ⟨folder, verbosity, .deck⟩ ↔ deck.total? world.overflow = none) := by
    intro deck hdeck
    rw [Deck.total?_eq_none_iff]
    constructor
    · rintro ⟨hread, hstops, h⟩
      cases hdeck.symm.trans hread
      exact ⟨hstops, h⟩
    · rintro ⟨hstops, h⟩
      exact .deck hdeck hstops h
  cases h with
  | unloaded | cards | effects | noCard | card =>
    exact iff_of_false (by rintro ⟨⟩) (by rintro ⟨_, ⟨⟩⟩)
  | unread h =>
    refine iff_of_false ?_ (by rintro ⟨_, ⟨⟩⟩)
    rintro ⟨hread⟩
    cases h.symm.trans hread
  | deck h htotal' =>
    refine iff_of_false ?_ (by rintro ⟨_, ⟨⟩⟩)
    rw [htotal h, htotal']
    exact Option.some_ne_none _
  | overflow h hnone => exact iff_of_true ((htotal h).mpr hnone) ⟨_, rfl⟩

/-- **A command that fails has printed nothing.** -/
theorem lines_of_failed {folder : String} {action : Action} {failure : Failure}
    (h : Performs world folder action (.error (.failed failure)) lines events) : lines = [] := by
  cases h <;> rfl

/-- A command that stops has failed, or its total has stopped it. -/
theorem stop_of_performs {folder : String} {action : Action} {reason : Stop}
    (h : Performs world folder action (.error reason) lines events) :
    (∃ failure, reason = .failed failure) ∨ ∃ text, reason = .crashed text := by
  cases h with
  | unloaded | noCard | unread => exact .inl ⟨_, rfl⟩
  | overflow => exact .inr ⟨_, rfl⟩

/-- **What is printed for a name.** -/
theorem shows_of_performs {folder name : String} {format : Format} {token : Bool}
    (h : Performs world folder (.content (.card name format token)) (.ok ()) lines events) :
    Shows (.folder folder world.fileAt) name format token (asLines lines) := by
  cases h with
  | @card _ _ _ content card hdecode hcard =>
    have hfinds := (finds_iff hdecode).mpr hcard
    cases token with
    | false => exact .card hfinds (tells_sheet format card)
    | true =>
      obtain ⟨descriptions, rows, cards, hdecoded⟩ := Content.decode_eq_ok_iff.mp hdecode
      have hresolved :=
        Content.resolved_of_decode hdecode card (Roster.mem_toList_of_find? hcard)
      rw [hdecoded.catalog] at hresolved
      exact .token hfinds (tells_sheet format card) hdecoded.read
        (Effect.parse_token_of_resolved hresolved)

/-! ## The files that are read -/

variable {fileAt : String → Except FileFault ByteArray}

/-- **A run sees no other files** than those of the resources that its action reads. -/
theorem run_congr (h : ∀ resource, request.action.reads resource →
    fileAt (pathIn request.folder resource.name) =
      world.fileAt (pathIn request.folder resource.name)) :
    request.run { world with fileAt } = request.run world := by
  obtain ⟨folder, verbosity, action⟩ := request
  cases action with
  | deck =>
    have hread : Deck.read (.folder folder fileAt) = Deck.read (.folder folder world.fileAt) := by
      rw [Deck.read, lines_congr (h .counts rfl)]
      rfl
    simp only [Request.run, Request.session, perform, hread]
    rfl
  | content query =>
    have hdecode : Content.decode (.folder folder fileAt) =
        Content.decode (.folder folder world.fileAt) :=
      Content.decode_congr (lines_congr (h .effects Resource.noConfusion))
        fun kind => rows_congr (h (.cards kind) Resource.noConfusion)
    have hload : (LoadGuard.fresh.load (.folder folder fileAt)).1 =
        (LoadGuard.fresh.load (.folder folder world.fileAt)).1 := hdecode
    simp only [Request.run, Request.session, perform, hload]

/-! ## The end of a command line -/

/-- **The exit code tells apart the three ways** in which a request ends. -/
theorem code_of_performs
    (h : Performs world request.folder request.action result lines events) :
    ((request.run world).code = 1 ↔ Fails world.fileAt request) ∧
      ((request.run world).code = 0 ↔ ¬Fails world.fileAt request ∧ ¬Crashes world request) ∧
      ((request.run world).code = 101 ↔ Crashes world request) := by
  rw [run_of_performs h, fails_iff_of_performs h, crashes_iff_of_performs h]
  cases result with
  | ok value => simp [Run.code, stopOf?]
  | error reason =>
    rcases stop_of_performs h with ⟨failure, rfl⟩ | ⟨text, rfl⟩
    · simp [Run.code, stopOf?, Stop.code]
    · simp [Run.code, stopOf?, Stop.code]

/-- A request that succeeds has come to its end. -/
theorem ok_of_code (h : Performs world request.folder request.action result lines events)
    (hcode : (request.run world).code = 0) : result = .ok () := by
  rw [run_of_performs h] at hcode
  cases result with
  | ok value => rfl
  | error reason => rcases stop_of_performs h with ⟨failure, rfl⟩ | ⟨text, rfl⟩ <;> cases hcode

/-- **How a request ends.** -/
theorem ending_run (world : World) (request : Request) :
    Ending world request (request.run world) := by
  obtain ⟨result, lines, events, h⟩ := exists_performs world request.folder request.action
  obtain ⟨hone, hzero, hcrash⟩ := code_of_performs h
  exact
    { code_eq_one_iff := hone
      code_eq_zero_iff := hzero
      code_eq_crash_iff := hcrash
      output_eq_empty := fun hfails => by
        obtain ⟨failure, rfl⟩ := (fails_iff_of_performs h).mp hfails
        rw [run_of_performs h, lines_of_failed h]
        rfl
      report_eq_empty := fun hcode => by
        obtain rfl := ok_of_code h hcode
        rw [run_of_performs h]
        exact ⟨rfl, fun _ => String.append_empty⟩
      shows := fun hcode name format token haction => by
        obtain rfl := ok_of_code h hcode
        rw [run_of_performs h]
        exact shows_of_performs (haction ▸ h)
      run_congr := fun _ => run_congr }

/-- **How a command line ends.** A command line that makes a request fails exactly if there is a
reason for it, and prints nothing then. Otherwise it succeeds and reports no failure, unless the
total of a deck needs more than 32 bits; and a card that was asked for by name is shown, the last
one whose name has the same key. The deck does not depend on the files of the cards, nor the cards
on the file of the deck. A command line that asks for help gets it, whatever the files are, and what
is neither is refused with nothing printed. -/
theorem ends_of_read (world : World) (arguments : List String) :
    (∀ request, Invocation.read world.folder? arguments = .asks request →
      Ending world request (execute world arguments)) ∧
    (∀ topic, Invocation.read world.folder? arguments = .help topic →
      (execute world arguments).code = 0 ∧
        (execute world arguments).output = world.help topic ++ "\n" ∧
        (execute world arguments).report = "") ∧
    (Invocation.read world.folder? arguments = .refused →
      (execute world arguments).code = 2 ∧ (execute world arguments).output = "") := by
  refine ⟨fun request h => ?_, fun topic h => ?_, fun h => ?_⟩
  · rw [execute_of_asks h]
    exact ending_run world request
  · rw [execute_of_help h]
    exact ⟨rfl, asLines_singleton _, rfl⟩
  · rw [execute_of_refused h]
    exact ⟨rfl, rfl⟩

end Endings

section Example

open scoped Name.Table

/-- The last of the cards that are called Twin. -/
def lastTwin : Card :=
  ⟨"Twin", ⟨"2"⟩, "Monster", .defeatable, .simple ⟨1, "Gain 1 rune.", some 2, true⟩⟩

theorem ends_of_read_twins :
    let world := worldOf Content.twinTexts
    ((execute world ["-d", "cards", "show", " tWIN", "--token"]).code = 0 ∧
      Shows (.folder "cards" world.fileAt) " tWIN" .text true
        (execute world ["-d", "cards", "show", " tWIN", "--token"]).output ∧
      (execute world ["-d", "cards", "show", " tWIN", "--token"]).output =
        "Twin (Monster, cost 2): Gain 1 rune. [2] (optional)\n1(2)?\n") ∧
    ((execute world ["-d", "cards", "show", "Twins"]).code = 1 ∧
      (execute world ["-d", "cards", "show", "Twins"]).output = "") ∧
    ((execute world ["-d", "cards", "counts"]).code = 1 ∧
      (execute world ["-d", "cards", "counts"]).output = "") ∧
    (execute world ["show", "--help"]).code = 0 := by
  intro world
  have hdecode := decode_twins_worldOf
  have hends := fun arguments => ends_of_read world arguments
  refine ⟨?_, ?_, ?_, ?_⟩
  · have hread : Invocation.read none ["-d", "cards", "show", " tWIN", "--token"] =
        .asks ⟨"cards", .normal, .content (.card " tWIN" .text true)⟩ := rfl
    have hending := (hends _).1 _ hread
    have hcard : (Compendium.ofCards Content.twins).card? " tWIN" = some lastTwin := by
      rw [Compendium.card?_ofCards]
      cbv
    have hnot : ¬Fails world.fileAt ⟨"cards", .normal, .content (.card " tWIN" .text true)⟩ := by
      rintro (_ | h | ⟨h, hnone⟩)
      · cases hdecode.symm.trans h
      · cases hdecode.symm.trans h
        cases hcard.symm.trans ((card?_eq_none_iff hdecode).mpr hnone)
    have hcode := hending.code_eq_zero_iff.mpr ⟨hnot, by rintro ⟨⟩⟩
    have hrun : Request.run world ⟨"cards", .normal, .content (.card " tWIN" .text true)⟩ = _ :=
      run_of_performs (.card hdecode hcard)
    have htext : asLines (sheetLines .text true lastTwin) =
        "Twin (Monster, cost 2): Gain 1 rune. [2] (optional)\n1(2)?\n" := by cbv
    refine ⟨hcode, hending.shows hcode rfl, ?_⟩
    rw [← htext, execute_of_asks hread, hrun]
    rfl
  · have hending := (hends ["-d", "cards", "show", "Twins"]).1
      ⟨"cards", .normal, .content (.card "Twins" .text false)⟩ rfl
    have hfails : Fails world.fileAt ⟨"cards", .normal, .content (.card "Twins" .text false)⟩ := by
      refine .noCard hdecode ((card?_eq_none_iff hdecode).mp ?_)
      rw [Compendium.card?_ofCards]
      cbv
    exact ⟨hending.code_eq_one_iff.mpr hfails, hending.output_eq_empty hfails⟩
  · have hending := (hends ["-d", "cards", "counts"]).1 ⟨"cards", .normal, .deck⟩ rfl
    have hfails : Fails world.fileAt ⟨"cards", .normal, .deck⟩ :=
      .deck (.unreadable (holdsAt_worldOf Content.twinTexts .counts))
    exact ⟨hending.code_eq_one_iff.mpr hfails, hending.output_eq_empty hfails⟩
  · exact ((hends ["show", "--help"]).2.1 ⟨some "show", true⟩ rfl).1

end Example

end CardContent.Command
