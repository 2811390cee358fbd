import CardContent.Name.Table
import CardContent.Proofs.Card.Printing
import CardContent.Proofs.Command.Help
import CardContent.Proofs.Compendium
import CardContent.Proofs.Content.Folder
import Mathlib

/-!
# The lists of the two kinds make up the list of all cards

`list` prints all cards, and with `--acquirable` or `--defeatable` those of one kind. The three are
runs of their own, each of which reads the content anew. What they print fits together because all
acquirable cards are decoded in front of all defeatable ones.

* `IsOptions common given` says that the arguments `common` are options in front of a command.
* `listCommand format only` is the command for a format and a kind.
* `Prints world arguments text` says that a command line succeeds and prints `text`.
* `TellsOf format cards text` says that a text tells of cards, one by one and in order.

Results:
* `readArguments_options`: options are read alike whatever stands behind them.
* `read_listCommand`: the command lines differ in what is to be listed, and in nothing else.
* `tellsOf_listLines`: every card that is listed is told of, as often as it is there.
* `prints_listCommand`: what `list` prints of content that can be loaded.
* `prints_list_of_loaded`: the lists of the two kinds make up the list of all cards.
-/

set_option autoImplicit false

namespace CardContent.Command

/-! ## Command lines -/

/-- Options in front of a command, and what they give. -/
structure IsOptions (common : List String) (given : Given) : Prop where
  read : readArguments commonKeys true Given.nothing common = some (given, [])
  noSeparator : "--" ∉ common

/-- The arguments that ask for a format; the text is printed unasked. -/
def Format.arguments : Format → List String
  | .text => []
  | .json => ["--format", "json"]

/-- The arguments that ask for the cards of one kind. -/
def kindArguments : Option Kind → List String
  | none => []
  | some .acquirable => ["--acquirable"]
  | some .defeatable => ["--defeatable"]

/-- The command that lists all cards or those of one kind. -/
def listCommand (format : Format) (only : Option Kind) : List String :=
  "list" :: (format.arguments ++ kindArguments only)

/-- Options give no words. -/
theorem words_of_reads {allowed : List Key} {given after : Given} {args left : List String}
    (hseparator : "--" ∉ args) (h : Reads allowed true given args after left) :
    after.words = given.words := by
  generalize hstop : true = stopAtWord at h
  induction h with
  | done | stop => rfl
  | separator hread => exact absurd (eq_of_separator hread ▸ List.mem_cons_self) hseparator
  | word hstop' => cases hstop.trans hstop'
  | option hgives hnext _ ih =>
    exact (ih fun hmem => hseparator (hgives.suffix.mem hmem)).trans (words_of_option? hnext)

/-- **Options are read alike** whatever stands behind them, and they give no words. -/
theorem readArguments_options {allowed : List Key} {given after : Given} {common : List String}
    (hseparator : "--" ∉ common)
    (h : readArguments allowed true given common = some (after, [])) :
    after.words = given.words ∧ ∀ behind, readArguments allowed true given (common ++ behind) =
      readArguments allowed true after behind := by
  have hreads := readArguments_eq_some_iff.mp h
  exact ⟨words_of_reads hseparator hreads, readArguments_append hseparator hreads⟩

variable {environment? : Option String} {common : List String} {given : Given}

/-- The request that options in front of a command make of its action, if there are no options
behind it. -/
def Given.request? (given : Given) (environment? : Option String) (action : Action) :
    Option Request := do
  let folder ← given.folder? environment?
  let verbosity ← given.verbosity?
  let folderBehind ← Given.nothing.folder? environment?
  return { folder := if given.has .data then folder else folderBehind, verbosity, action }

/-- What the options give shows in the request, whatever the action. -/
theorem Given.request?_eq_some {action : Action} {request : Request}
    (h : given.request? environment? action = some request) :
    given.folder? environment? = some request.folder ∧
      given.verbosity? = some request.verbosity ∧ request.action = action ∧
      ∀ other, given.request? environment? other = some { request with action := other } := by
  unfold Given.request? at h
  obtain ⟨folder, hfolder, h⟩ := Option.bind_eq_some_iff.mp h
  obtain ⟨verbosity, hverbosity, h⟩ := Option.bind_eq_some_iff.mp h
  obtain ⟨folderBehind, hbehind, h⟩ := Option.bind_eq_some_iff.mp h
  have hsame : (if given.has .data then folder else folderBehind) = folder := by
    by_cases hdata : given.has .data
    · rw [if_pos hdata]
    · -- without the option both folders come from the environment
      have hnone : given.value? .data = none := by simpa [Given.has] using hdata
      rw [if_neg hdata]
      rw [Given.folder?, hnone] at hfolder
      exact Option.some.inj (hbehind.symm.trans hfolder)
  rw [hsame] at h
  cases h
  refine ⟨hfolder, hverbosity, rfl, fun other => ?_⟩
  simp [Given.request?, hfolder, hverbosity, hbehind, hsame]

/-- **Options alone** ask for all cards as text. -/
theorem read_options (hcommon : IsOptions common given) {folder : String}
    {verbosity : Log.Verbosity} (hfolder : given.folder? environment? = some folder)
    (hverbosity : given.verbosity? = some verbosity) :
    Request.read environment? common =
      some { folder, verbosity, action := .content (.cards .text none) } := by
  obtain ⟨hwords, -⟩ := readArguments_options hcommon.noSeparator hcommon.read
  have hnone : given.words = [] := hwords
  simp [Request.read, hcommon.read, hfolder, hverbosity, hnone]

/-- **A command with options in front** makes the request of the options with its action. -/
theorem read_command (hcommon : IsOptions common given) {name : String} {arguments : List String}
    {allowed : List Key} {behind : Given} {action : Action}
    (hname : Argument.read name = .word name) (hallowed : keysOf? name = some allowed)
    (hbehind : readArguments allowed false Given.nothing arguments = some (behind, []))
    (haction : Action.of? name behind = some action) (hdata : behind.value? .data = none)
    (hverbosity : behind.value? .verbosity = none) :
    Request.read environment? (common ++ name :: arguments) =
      given.request? environment? action := by
  obtain ⟨hwords, hread⟩ := readArguments_options hcommon.noSeparator hcommon.read
  have hnone : given.words = [] := hwords
  have hfront : readArguments commonKeys true Given.nothing (common ++ name :: arguments) =
      some (given, name :: arguments) := by
    rw [hread, readArguments]
    simp [hname]
  have hfolder : behind.folder? environment? = Given.nothing.folder? environment? := by
    rw [Given.folder?, hdata]
    rfl
  have hnormal : behind.verbosity? = some .normal := by rw [Given.verbosity?, hverbosity]
  have hnodata : behind.has .data = false := by rw [Given.has, hdata]; rfl
  have hnoverbosity : behind.has .verbosity = false := by rw [Given.has, hverbosity]; rfl
  unfold Request.read Given.request?
  simp [hfront, hnone, hallowed, hbehind, haction, hfolder, hnormal, hnodata, hnoverbosity]
  cases given.has .data <;> rfl

/-- **The command lines of `list`** differ in what is to be listed, and in nothing else. -/
theorem read_listCommand (hcommon : IsOptions common given) (format : Format)
    (only : Option Kind) :
    Request.read environment? (common ++ listCommand format only) =
      given.request? environment? (.content (.cards format only)) := by
  have hbehind : ∃ behind, readArguments (.format :: .acquirable :: .defeatable :: commonKeys) false
      Given.nothing (format.arguments ++ kindArguments only) = some (behind, []) ∧
        Action.of? "list" behind = some (.content (.cards format only)) ∧
        behind.value? .data = none ∧ behind.value? .verbosity = none := by
    cases format <;> rcases only with _ | _ | _ <;> exact ⟨_, rfl, rfl, rfl, rfl⟩
  obtain ⟨behind, hread, haction, hdata, hverbosity⟩ := hbehind
  exact read_command hcommon rfl rfl hread haction hdata hverbosity

/-! ## What is printed -/

/-- Lines as they are printed. -/
def asLines (lines : List String) : String :=
  String.join (lines.map fun line => line ++ "\n")

theorem asLines_append (lines more : List String) :
    asLines (lines ++ more) = asLines lines ++ asLines more := by
  rw [asLines, List.map_append, String.join_append]
  rfl

theorem asLines_singleton (line : String) : asLines [line] = line ++ "\n" := by
  simp [asLines]

/-- A text tells of cards, one by one and in order, a card that is there twice being told of twice:
in lines, or in the items of an array of which the cards can be read. -/
inductive TellsOf (cards : List Card) : Format → String → Prop where
  | text {lines : List String} (h : List.Forall₂ Card.Told cards lines) :
      TellsOf cards .text (asLines lines)
  | json {items : List Json} {pieces : List String}
      (hread : List.Forall₂ (fun card item => Card.ofJson? item = some card) cards items)
      (hpieces : List.Forall₂ Card.WrittenIn cards pieces)
      (htext : (Json.arr items).pretty =
        "[" ++ ",".intercalate pieces ++ (if items.isEmpty then "" else "\n") ++ "]") :
      TellsOf cards .json ((Json.arr items).pretty ++ "\n")

/-- **Every card that is listed is told of**, in its turn. -/
theorem tellsOf_listLines (format : Format) (cards : List Card) :
    TellsOf cards format (asLines (listLines format cards)) := by
  cases format with
  | text => exact .text (List.forall₂_map_right_iff.mpr (List.forall₂_same.mpr fun card _ =>
      card.told_display))
  | json =>
    rw [listLines, asLines_singleton]
    refine .json ?_ ?_ (Json.pretty_arr _)
    · exact List.forall₂_map_right_iff.mpr (List.forall₂_same.mpr fun card _ => card.ofJson?_toJson)
    · rw [List.map_map]
      refine List.forall₂_map_right_iff.mpr (List.forall₂_same.mpr fun card _ => ?_)
      exact (card.writtenIn_render 1).behind _

section Loaded

variable [Name.Spelling]

/-- A command line succeeds and prints `text`. -/
def Prints (world : World) (arguments : List String) (text : String) : Prop :=
  (execute world arguments).code = 0 ∧ (execute world arguments).output = text

variable {world : World} {request : Request} {content : Content}

/-- **What `list` prints** of content that can be loaded. -/
theorem prints_listCommand (hcommon : IsOptions common given)
    (hread : Request.read world.folder? (common ++ ["list"]) = some request)
    (hload : (LoadGuard.fresh.load (.folder request.folder world.fileAt)).1.outcome = .ok content)
    (format : Format) (only : Option Kind) :
    Prints world (common ++ listCommand format only)
      (asLines (listLines format (listed content only))) := by
  have hrequest : given.request? world.folder? (.content (.cards .text none)) = some request :=
    (read_listCommand hcommon .text none).symm.trans hread
  obtain ⟨-, -, -, hother⟩ := Given.request?_eq_some hrequest
  have hasks := read_eq_asks_iff.mpr ((read_listCommand hcommon format only).trans (hother _))
  have hrun : (Request.run world { request with action := .content (.cards format only) }) = _ :=
    run_of_performs (.cards (Content.decode_of_load hload))
  rw [Prints, execute_of_asks hasks, hrun]
  exact ⟨rfl, rfl⟩

/-- Without a command the same is printed as by `list`. -/
theorem prints_options (hcommon : IsOptions common given)
    (hread : Request.read world.folder? (common ++ ["list"]) = some request) {text : String}
    (hprints : Prints world (common ++ ["list"]) text) : Prints world common text := by
  have hrequest : given.request? world.folder? (.content (.cards .text none)) = some request :=
    (read_listCommand hcommon .text none).symm.trans hread
  obtain ⟨hfolder, hverbosity, haction, -⟩ := Given.request?_eq_some hrequest
  have hplain : Request.read world.folder? common = some request := by
    rw [read_options hcommon hfolder hverbosity, ← haction]
  rw [Prints, execute_of_asks (read_eq_asks_iff.mpr hread)] at hprints
  rw [Prints, execute_of_asks (read_eq_asks_iff.mpr hplain)]
  exact hprints

/-- **The lists of the two kinds make up the list of all cards.** With any options in front, if
`list` is understood and the content of its folder can be loaded: what is printed for acquirable
cards, and behind it what is printed for defeatable ones, is what is printed for all, as texts or as
arrays. Without a command the same is printed. What is printed for all tells of every card in its
turn, and every row of the two tables has its card there, whatever its name. -/
theorem prints_list_of_loaded (world : World) (common : List String) (given : Given)
    (request : Request) (content : Content) (hcommon : IsOptions common given)
    (hread : Invocation.read world.folder? (common ++ ["list"]) = .asks request)
    (hload : (LoadGuard.fresh.load (.folder request.folder world.fileAt)).1.outcome =
      .ok content) :
    (∃ acquirables defeatables : List Card,
      content.compendium.ofKind .acquirable = acquirables ∧
        content.compendium.ofKind .defeatable = defeatables ∧
        acquirables ++ defeatables = content.cards ∧
        (∀ card ∈ acquirables, card.kind = .acquirable) ∧
        (∀ card ∈ defeatables, card.kind = .defeatable) ∧
        Prints world (common ++ ["list", "--acquirable"])
          (asLines (acquirables.map Card.display)) ∧
        Prints world (common ++ ["list", "--defeatable"])
          (asLines (defeatables.map Card.display)) ∧
        Prints world (common ++ ["list"])
          (asLines (acquirables.map Card.display) ++ asLines (defeatables.map Card.display)) ∧
        Prints world common
          (asLines (acquirables.map Card.display) ++ asLines (defeatables.map Card.display)) ∧
        Prints world (common ++ ["list", "--format", "json", "--acquirable"])
          ((Json.arr (acquirables.map Card.toJson)).pretty ++ "\n") ∧
        Prints world (common ++ ["list", "--format", "json", "--defeatable"])
          ((Json.arr (defeatables.map Card.toJson)).pretty ++ "\n") ∧
        Prints world (common ++ ["list", "--format", "json"])
          ((Json.arr (acquirables.map Card.toJson ++ defeatables.map Card.toJson)).pretty ++
            "\n")) ∧
    (∃ text array, Prints world (common ++ ["list"]) text ∧
      Prints world (common ++ ["list", "--format", "json"]) array ∧
      TellsOf content.cards .text text ∧ TellsOf content.cards .json array) ∧
    ∃ lines rows, Content.Readable (.folder request.folder world.fileAt) lines rows ∧
      List.Forall₂ (fun r card => r.card (.ofList lines) = .ok card) (placedRows rows)
        content.cards := by
  have hrequest := read_eq_asks_iff.mp hread
  have hdecode := Content.decode_of_load hload
  have hall := Content.ofKind_append_ofKind hdecode
  have hprints := prints_listCommand hcommon hrequest hload
  have hlist : Prints world (common ++ ["list"])
      (asLines ((content.compendium.ofKind .acquirable).map Card.display) ++
        asLines ((content.compendium.ofKind .defeatable).map Card.display)) := by
    rw [← asLines_append, ← List.map_append, hall]
    exact hprints .text none
  refine ⟨⟨content.compendium.ofKind .acquirable, content.compendium.ofKind .defeatable, rfl, rfl,
    hall, fun _ hcard => Compendium.kind_of_mem_ofKind hcard,
    fun _ hcard => Compendium.kind_of_mem_ofKind hcard, hprints .text (some .acquirable),
    hprints .text (some .defeatable), hlist, prints_options hcommon hrequest hlist, ?_, ?_, ?_⟩,
    ?_, ?_⟩
  · rw [← asLines_singleton]
    exact hprints .json (some .acquirable)
  · rw [← asLines_singleton]
    exact hprints .json (some .defeatable)
  · rw [← asLines_singleton, ← List.map_append, hall]
    exact hprints .json none
  · exact ⟨_, _, hprints .text none, hprints .json none, tellsOf_listLines .text content.cards,
      tellsOf_listLines .json content.cards⟩
  · obtain ⟨lines, rows, hflawless, hcards⟩ := Content.rows_of_decode hdecode
    exact ⟨lines, rows, hflawless.toReadable, hcards⟩

end Loaded

section Example

open scoped Name.Table

/-- A world with these texts in the folder `cards`. -/
def worldOf (textOf : String → Option String) : World where
  fileAt := Source.filesOf "cards" textOf
  folder? := none
  overflow := .stops
  overflowText := "attempt to add with overflow"
  help _ := "help"
  refusal _ := "usage"

theorem holdsAt_worldOf (textOf : String → Option String) (resource : Resource) :
    Source.HoldsAt "cards" (worldOf textOf).fileAt textOf resource.name :=
  Source.holdsAt_filesOf (by decide) (by decide) textOf
    (by rcases resource with _ | (_ | _) | _ <;> decide)

/-- The content of this folder if it has the texts of the three twins. -/
theorem decode_twins_worldOf :
    (Content.decode (.folder "cards" (worldOf Content.twinTexts).fileAt)).outcome =
      .ok ⟨.ofList ["Gain 1 rune."], .ofCards Content.twins⟩ := by
  have hmemory : (Content.decode (.memory Content.twinTexts)).outcome =
      .ok ⟨.ofList ["Gain 1 rune."], .ofCards Content.twins⟩ := by cbv
  rw [Content.decode_folder fun resource _ => holdsAt_worldOf Content.twinTexts resource, hmemory]
  rfl

theorem prints_list_of_loaded_twins :
    ∃ (given : Given) (request : Request) (content : Content),
      IsOptions ["-d", "cards"] given ∧
      Invocation.read none ["-d", "cards", "list"] = .asks request ∧
      (LoadGuard.fresh.load
        (.folder request.folder (worldOf Content.twinTexts).fileAt)).1.outcome = .ok content ∧
      content.cards.map Card.name = ["Twin", "Twin", "Twin"] ∧
      Prints (worldOf Content.twinTexts) ["-d", "cards", "list", "--acquirable"]
        ("Twin (Hero, cost 3, honor 1): Gain 1 rune.\n" ++
          "Twin (Hero, cost 4, honor 0): Gain 1 rune.\n") ∧
      Prints (worldOf Content.twinTexts) ["-d", "cards", "list", "--defeatable"]
        "Twin (Monster, cost 2): Gain 1 rune. [2] (optional)\n" ∧
      Prints (worldOf Content.twinTexts) ["-d", "cards"]
        ("Twin (Hero, cost 3, honor 1): Gain 1 rune.\n" ++
          "Twin (Hero, cost 4, honor 0): Gain 1 rune.\n" ++
          "Twin (Monster, cost 2): Gain 1 rune. [2] (optional)\n") := by
  have hcommon : IsOptions ["-d", "cards"] ⟨[(.data, "cards")], []⟩ := ⟨rfl, by decide⟩
  obtain ⟨⟨acquirables, defeatables, hacquirables, hdefeatables, -, -, -, hacquirable, hdefeatable,
    -, hplain, -⟩, -⟩ := prints_list_of_loaded (worldOf Content.twinTexts) ["-d", "cards"] _
      ⟨"cards", .normal, .content (.cards .text none)⟩ _ hcommon rfl decode_twins_worldOf
  rw [Compendium.ofKind, Compendium.toList_ofCards] at hacquirables hdefeatables
  obtain rfl : Content.twins.take 2 = acquirables := hacquirables
  obtain rfl : Content.twins.drop 2 = defeatables := hdefeatables
  have hheroes : asLines ((Content.twins.take 2).map Card.display) =
      "Twin (Hero, cost 3, honor 1): Gain 1 rune.\n" ++
        "Twin (Hero, cost 4, honor 0): Gain 1 rune.\n" := by cbv
  have hmonster : asLines ((Content.twins.drop 2).map Card.display) =
      "Twin (Monster, cost 2): Gain 1 rune. [2] (optional)\n" := by cbv
  rw [hheroes] at hacquirable hplain
  rw [hmonster] at hdefeatable hplain
  refine ⟨_, _, _, hcommon, rfl, decode_twins_worldOf, ?_, hacquirable, hdefeatable, hplain⟩
  rw [Content.cards, Compendium.toList_ofCards]
  rfl

end Example

end CardContent.Command
