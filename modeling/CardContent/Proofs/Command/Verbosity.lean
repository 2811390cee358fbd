import CardContent.Proofs.Command.Listing
import CardContent.Proofs.Text.Utf8
import Mathlib

/-!
# Verbosity changes the log and nothing else

What a command does at its console does not depend on the filter, which only decides which events
are kept. So two command lines that ask for the same but for the verbosity leave the same, and the
records of the smaller verbosity are those of the larger one that pass its filter. That they ask for
the same is a matter of reading: the verbosity can be spelled in several ways and in one or two
arguments, at any place, or not be given at all.

* `GivesVerbosity text option` says that the arguments `option` give a verbosity by the text `text`.
* `Given.Differ text text' given given'` says that the same was given but for the verbosity.
* `OnlyLogDiffers u elapsed run run'` compares what is left of two runs, `u` being the smaller
  verbosity.

Results:
* `gives_verbosity`: the verbosity is given by any of the forms.
* `Reads.differ`: what is read behind the verbosity is read whatever the verbosity is.
* `Asks.respell`: two command lines that differ in the verbosity ask for the same.
* `Asks.verbosity_normal`: if none is given, it is the normal one.
* `onlyLogDiffers_run`: requests that ask for the same differ in their logs only.
* `only_log_differs`: all of this about command lines.
-/

set_option autoImplicit false

namespace CardContent

/-! ## Levels and filters -/

namespace Log

/-- The rank up to which records are shown. -/
def Verbosity.limit : Verbosity → Nat
  | .silent => 0
  | .minimal => Level.warn.rank
  | .normal => Level.info.rank
  | .verbose => Level.trace.rank

theorem Verbosity.shows_eq (v : Verbosity) (level : Level) :
    v.filter.shows level = decide (level.rank ≤ v.limit) := by
  cases v with
  | silent => cases level <;> rfl
  | minimal | normal | verbose => rfl

/-- **A larger verbosity shows more.** -/
theorem Verbosity.shows_of_le {u v : Verbosity} (h : u.number ≤ v.number) {level : Level}
    (hu : u.filter.shows level = true) : v.filter.shows level = true := by
  have hlimits : ∀ u v : Verbosity, u.number ≤ v.number → u.limit ≤ v.limit := by
    intro u v h
    cases u <;> cases v <;> first | exact absurd h (by decide) | decide
  rw [shows_eq] at hu ⊢
  exact decide_eq_true ((of_decide_eq_true hu).trans (hlimits u v h))

/-- A text that chooses a verbosity looks neither like an option nor like the value of one. -/
theorem Verbosity.head_of_ofText? {text : String} {v : Verbosity} (h : ofText? text = some v) :
    ∃ c rest, text.toList = c :: rest ∧ c ≠ '-' ∧ c ≠ '=' := by
  have hnames : String.ofList (text.toList.map Char.toLower) ∈
      ["silent", "0", "minimal", "1", "normal", "2", "verbose", "3"] := by
    unfold ofText? at h
    split at h
    case h_9 => cases h
    all_goals
      rename_i hname
      rw [hname]
      decide
  cases htext : text.toList with
  | nil =>
    rw [htext] at hnames
    exact absurd hnames (by decide)
  | cons c rest =>
    have hhead : c.toLower ∈ ['s', '0', 'm', '1', 'n', '2', 'v', '3'] := by
      have hlists := List.mem_map_of_mem (f := fun name => name.toList.head?) hnames
      rw [String.toList_ofList, htext] at hlists
      simpa using hlists
    refine ⟨c, rest, rfl, ?_, ?_⟩
    · rintro rfl
      exact absurd hhead (by decide)
    · rintro rfl
      exact absurd hhead (by decide)

end Log

namespace Command

/-! ## The forms of the option -/

/-- The arguments that give a verbosity by a text. -/
inductive GivesVerbosity (text : String) : List String → Prop where
  | spaced : GivesVerbosity text ["--verbosity", text]
  | assigned : GivesVerbosity text ["--verbosity=" ++ text]
  | apart : GivesVerbosity text ["-v", text]
  | attached : GivesVerbosity text ["-v" ++ text]
  | attachedAssigned : GivesVerbosity text ["-v=" ++ text]

variable {text text' : String} {u v : Log.Verbosity} {option option' before rest : List String}
  {allowed : List Key} {stopAtWord : Bool}

/-- **The verbosity is given** by any of the forms, if the text chooses one. -/
theorem gives_verbosity (hoption : GivesVerbosity text option)
    (htext : Log.Verbosity.ofText? text = some v) (hallowed : .verbosity ∈ allowed)
    (rest : List String) : Gives allowed (option ++ rest) .verbosity text rest := by
  obtain ⟨c, cs, hlist, hdash, hassign⟩ := Log.Verbosity.head_of_ofText? htext
  have hword : (Argument.read text).isWord = true := by rw [read_word hlist hdash]; rfl
  cases hoption with
  | spaced => exact .spaced hallowed (by decide) rfl hword
  | assigned =>
    have hlong : ("--verbosity=" ++ text).toList =
        '-' :: '-' :: ('v' :: "erbosity".toList ++ '=' :: text.toList) := by
      rw [String.toList_append]
      rfl
    have hread : Argument.read ("--verbosity=" ++ text) = .long Key.verbosity.long (some text) := by
      rw [read_assigned hlong (by decide), String.ofList_toList]
      rfl
    exact .assigned hallowed hread rfl
  | apart => exact .apart hallowed (read_short rfl (by decide)) rfl rfl hword
  | attached =>
    have hvalue : valueBehind (c :: cs) = some text := by
      rw [← String.ofList_toList (s := text), hlist]
      unfold valueBehind
      split
      · rename_i h; cases h
      · rename_i h
        exact absurd (List.cons.inj h).1 hassign
      · rfl
    have hshort : ("-v" ++ text).toList = '-' :: 'v' :: (c :: cs) := by
      rw [String.toList_append, hlist]
      rfl
    exact .attached hallowed (read_short hshort (by decide)) rfl hvalue
  | attachedAssigned =>
    have hshort : ("-v=" ++ text).toList = '-' :: 'v' :: '=' :: text.toList := by
      rw [String.toList_append]
      rfl
    have hvalue : valueBehind ('=' :: text.toList) = some text := by
      rw [valueBehind, String.ofList_toList]
    exact .attached hallowed (read_short hshort (by decide)) rfl hvalue

/-- Every command takes the option. -/
theorem verbosity_mem_keysOf {name : String} (h : keysOf? name = some allowed) :
    Key.verbosity ∈ allowed := by
  unfold keysOf? at h
  split at h
  all_goals cases h
  all_goals decide

/-! ## What is given -/

/-- The same was given but for the verbosity, for which two texts were given. -/
structure Given.Differ (text text' : String) (given given' : Given) : Prop where
  words : given'.words = given.words
  value? : ∀ key, key ≠ .verbosity → given'.value? key = given.value? key
  verbosity : given.value? .verbosity = some text
  verbosity' : given'.value? .verbosity = some text'

variable {given given' next next' after : Given} {args left : List String}

namespace Given

/-- The same option with two texts makes the difference. -/
theorem differ_of_option? (h : given.option? .verbosity text = some next)
    (h' : given.option? .verbosity text' = some next') : Differ text text' next next' where
  words := (words_of_option? h').trans (words_of_option? h).symm
  value? key hkey := by rw [value?_option? h', value?_option? h, if_neg hkey, if_neg hkey]
  verbosity := by rw [value?_option? h, if_pos rfl]
  verbosity' := by rw [value?_option? h', if_pos rfl]

theorem Differ.option? (hdiffer : Differ text text' given given') {key : Key} {value : String}
    (h : given.option? key value = some next) :
    ∃ next', given'.option? key value = some next' ∧ Differ text text' next next' := by
  have hnone := exists_option?_iff.mp ⟨next, h⟩
  have hkey : key ≠ .verbosity := by
    rintro rfl
    cases hdiffer.verbosity.symm.trans hnone
  obtain ⟨next', h'⟩ := exists_option?_iff.mpr ((hdiffer.value? key hkey).trans hnone)
  refine ⟨next', h', ?_, fun other hother => ?_, ?_, ?_⟩
  · rw [words_of_option? h', words_of_option? h, hdiffer.words]
  · rw [value?_option? h', value?_option? h, hdiffer.value? other hother]
  · rw [value?_option? h, if_neg hkey.symm, hdiffer.verbosity]
  · rw [value?_option? h', if_neg hkey.symm, hdiffer.verbosity']

theorem Differ.addWords (hdiffer : Differ text text' given given') (words : List String) :
    Differ text text' (given.addWords words) (given'.addWords words) where
  words := congrArg (· ++ words) hdiffer.words
  value? := hdiffer.value?
  verbosity := hdiffer.verbosity
  verbosity' := hdiffer.verbosity'

variable (hdiffer : Differ text text' given given')

include hdiffer

theorem Differ.has {key : Key} (hkey : key ≠ .verbosity) : given'.has key = given.has key := by
  rw [Given.has, Given.has, hdiffer.value? key hkey]

theorem Differ.folder? (environment? : Option String) :
    given'.folder? environment? = given.folder? environment? := by
  rw [Given.folder?, Given.folder?, hdiffer.value? .data Key.noConfusion]

theorem Differ.action (name : String) : Action.of? name given' = Action.of? name given := by
  have hformat : given'.format? = given.format? := by
    rw [format?, format?, hdiffer.value? .format Key.noConfusion]
  have honly : given'.only? = given.only? := by
    rw [only?, only?, hdiffer.has Key.noConfusion, hdiffer.has Key.noConfusion]
  unfold Action.of?
  rw [hdiffer.words, hformat, honly, hdiffer.has Key.noConfusion]

theorem Differ.verbosity? (htext : Log.Verbosity.ofText? text = some u)
    (htext' : Log.Verbosity.ofText? text' = some v) :
    given.verbosity? = some u ∧ given'.verbosity? = some v := by
  simp only [Given.verbosity?, hdiffer.verbosity, hdiffer.verbosity', htext, htext', and_self]

theorem Differ.has_verbosity : given.has .verbosity = true ∧ given'.has .verbosity = true := by
  simp only [Given.has, hdiffer.verbosity, hdiffer.verbosity', Option.isSome_some, and_self]

end Given

/-! ## Reading on -/

/-- **What is behind the verbosity is read whatever the verbosity is.** By induction on the reading:
no step but one for a further verbosity looks at it, and that one fails either way. -/
theorem Reads.differ (h : Reads allowed stopAtWord given args after left)
    (hdiffer : given.Differ text text' given') : ∃ after',
      Reads allowed stopAtWord given' args after' left ∧ after.Differ text text' after' := by
  induction h generalizing given' with
  | done => exact ⟨given', .done, hdiffer⟩
  | separator hread => exact ⟨_, .separator hread, hdiffer.addWords _⟩
  | stop hstop hread => exact ⟨given', .stop hstop hread, hdiffer⟩
  | word hstop hread _ ih =>
    obtain ⟨after', hrest, hafter⟩ := ih (hdiffer.addWords _)
    exact ⟨after', .word hstop hread hrest, hafter⟩
  | option hgives hnext _ ih =>
    obtain ⟨next', hnext', hdiffer'⟩ := hdiffer.option? hnext
    obtain ⟨after', hrest, hafter⟩ := ih hdiffer'
    exact ⟨after', .option hgives hnext' hrest, hafter⟩

/-- Two forms of the option make the difference, wherever they stand. -/
theorem Reads.respell (hseparator : "--" ∉ before)
    (hgives : Gives allowed (option ++ rest) .verbosity text rest)
    (hgives' : Gives allowed (option' ++ rest) .verbosity text' rest)
    (h : Reads allowed stopAtWord given (before ++ (option ++ rest)) after left) :
    (∃ after', Reads allowed stopAtWord given (before ++ (option' ++ rest)) after' left ∧
      after.Differ text text' after' ∧ left <:+ rest) ∨
    ∃ name args, Reads allowed stopAtWord given before after (name :: args) ∧
      left = name :: args ++ (option ++ rest) := by
  refine (reads_append_cases hseparator hgives.head_not_word h).imp_left ?_
  rintro ⟨middle, hbefore, hbehind⟩
  obtain ⟨next, hnext, hrest⟩ := (reads_of_gives_iff hgives).mp hbehind
  obtain ⟨next', hnext'⟩ := Given.exists_option?_iff.mpr (Given.exists_option?_iff.mp ⟨next, hnext⟩)
  obtain ⟨after', hrest', hdiffer⟩ := hrest.differ (Given.differ_of_option? hnext hnext')
  have hbehind' := (reads_of_gives_iff hgives').mpr ⟨next', hnext', hrest'⟩
  refine ⟨after', ?_, hdiffer, hrest.suffix⟩
  rw [← readArguments_eq_some_iff, readArguments_append hseparator hbefore]
  exact readArguments_eq_some_iff.mpr hbehind'

/-- **Command lines that differ in the verbosity ask for the same.** The verbosity of the one is as
it is spelled there, and so is that of the other; unless a further one is given behind the command,
which then counts in both. -/
theorem Asks.respell {environment? : Option String} {p : Request} (hseparator : "--" ∉ before)
    (hoption : GivesVerbosity text option) (hoption' : GivesVerbosity text' option')
    (htext : Log.Verbosity.ofText? text = some u) (htext' : Log.Verbosity.ofText? text' = some v)
    (h : Asks environment? (before ++ (option ++ rest)) p) :
    ∃ q, Asks environment? (before ++ (option' ++ rest)) q ∧ q.folder = p.folder ∧
      q.action = p.action ∧ (p.verbosity = u ∧ q.verbosity = v ∨
        p.verbosity = q.verbosity ∧ ∃ arg ∈ rest, Key.verbosity.Names arg) := by
  have hgives : ∀ {allowed : List Key}, .verbosity ∈ allowed →
      Gives allowed (option ++ rest) .verbosity text rest ∧
        Gives allowed (option' ++ rest) .verbosity text' rest := fun hallowed =>
    ⟨gives_verbosity hoption htext hallowed rest, gives_verbosity hoption' htext' hallowed rest⟩
  obtain ⟨hcommon, hcommon'⟩ := hgives (by decide : Key.verbosity ∈ commonKeys)
  cases h with
  | plain hread hwords hfolder hverbosity =>
    rcases hread.respell hseparator hcommon hcommon' with
      ⟨front', hread', hdiffer, -⟩ | ⟨name, args, -, hleft⟩
    · obtain ⟨hu, hv⟩ := hdiffer.verbosity? htext htext'
      obtain rfl := Option.some.inj (hu.symm.trans hverbosity)
      refine ⟨_, .plain hread' (hdiffer.words.trans hwords)
        ((hdiffer.folder? environment?).trans hfolder) hv, rfl, rfl, .inl ⟨rfl, rfl⟩⟩
    · cases hleft
  | @command _ name _ _ front behind _ _ _ _ hread hwords hfolder hverbosity hname hbehind haction
      hfolder' hverbosity' =>
    rcases hread.respell hseparator hcommon hcommon' with
      ⟨front', hread', hdiffer, hsuffix⟩ | ⟨name', args, hread', hleft⟩
    · -- the option stands in front of the command
      obtain ⟨hu, hv⟩ := hdiffer.verbosity? htext htext'
      obtain rfl := Option.some.inj (hu.symm.trans hverbosity)
      have hfront := (hdiffer.folder? environment?).trans hfolder
      refine ⟨_, .command hread' (hdiffer.words.trans hwords) hfront hv hname hbehind haction
        hfolder' hverbosity', ?_, rfl, ?_⟩
      · rw [hdiffer.has Key.noConfusion]
      · by_cases hhas : behind.has .verbosity = true
        · refine .inr ⟨by rw [if_pos hhas, if_pos hhas], ?_⟩
          rcases hbehind.names hhas with hnothing | ⟨arg, harg, hnames⟩
          · cases hnothing
          · exact ⟨arg, hsuffix.mem (List.mem_cons_of_mem _ harg), hnames⟩
        · exact .inl ⟨by rw [if_neg hhas], by rw [if_neg hhas]⟩
    · -- the option stands behind the command
      obtain ⟨rfl, rfl⟩ := List.cons.inj hleft
      obtain ⟨hallowed, hallowed'⟩ := hgives (verbosity_mem_keysOf hname)
      have hargs : "--" ∉ args := fun hmem =>
        hseparator (hread'.suffix.mem (List.mem_cons_of_mem _ hmem))
      rcases hbehind.respell hargs hallowed hallowed' with
        ⟨behind', hbehind', hdiffer, -⟩ | ⟨_, _, -, hnil⟩
      · obtain ⟨hu, hv⟩ := hdiffer.verbosity? htext htext'
        obtain ⟨hhas, hhas'⟩ := hdiffer.has_verbosity
        obtain rfl := Option.some.inj (hu.symm.trans hverbosity')
        refine ⟨_, .command (hread'.append_of_stop (option' ++ rest)) hwords hfolder hverbosity
          hname hbehind' ((hdiffer.action _).trans haction)
          ((hdiffer.folder? environment?).trans hfolder') hv, ?_, rfl,
          .inl ⟨if_pos hhas, if_pos hhas'⟩⟩
        rw [hdiffer.has Key.noConfusion]
      · cases hnil

/-- **If no argument names the verbosity, it is the normal one.** -/
theorem Asks.verbosity_normal {environment? : Option String} {request : Request}
    (h : Asks environment? args request) (hnone : ∀ arg ∈ args, ¬Key.verbosity.Names arg) :
    request.verbosity = .normal := by
  have hnormal : ∀ {given : Given} {w : Log.Verbosity}, given.has .verbosity = false →
      given.verbosity? = some w → w = .normal := by
    intro given w hhas hw
    have hvalue : given.value? .verbosity = none := by simpa [Given.has] using hhas
    rw [Given.verbosity?, hvalue] at hw
    exact (Option.some.inj hw).symm
  have hnot : ∀ {allowed : List Key} {stopAtWord : Bool} {given : Given}
      {stretch left : List String}, Reads allowed stopAtWord .nothing stretch given left →
        (∀ arg ∈ stretch, arg ∈ args) → given.has .verbosity = false := by
    intro allowed stopAtWord given stretch left hreads hmem
    rw [Bool.eq_false_iff]
    intro hhas
    rcases hreads.names hhas with hnothing | ⟨arg, harg, hnames⟩
    · cases hnothing
    · exact hnone arg (hmem arg harg) hnames
  cases h with
  | plain hread _ _ hverbosity => exact hnormal (hnot hread fun _ => id) hverbosity
  | command hread _ _ hverbosity _ hbehind =>
    have hbehind' := hnot hbehind fun arg harg => hread.suffix.mem (List.mem_cons_of_mem _ harg)
    exact (if_neg (Bool.eq_false_iff.mp hbehind')).trans
      (hnormal (hnot hread fun _ => id) hverbosity)

/-! ## What is left of two runs -/

/-- What is left of a run at verbosity `u`, and of one that differs by a verbosity that is not
smaller. -/
structure OnlyLogDiffers (u : Log.Verbosity) (elapsed : String) (run run' : Run) : Prop where
  code : run'.code = run.code
  output : run'.output = run.output
  report : run'.report = run.report
  /-- At the smaller verbosity there are those records whose level passes its filter. -/
  records : run.records elapsed = (run'.records elapsed).filter fun record =>
    u.filter.shows record.level
  /-- So there are fewer of them, in the same order. -/
  sublist : (run.records elapsed).Sublist (run'.records elapsed)
  /-- Nothing else differs in what goes to the error stream. -/
  errorOutput : run.errorOutput elapsed = String.join (((run'.records elapsed).filter fun record =>
    u.filter.shows record.level).map Log.Record.line) ++ run'.report
  silent : u = .silent → run.records elapsed = []

/-- The records that a filter shows, of those that a larger one shows. -/
theorem filter_records (hle : u.number ≤ v.number) (elapsed : String) (events : List Event) :
    (v.filter.records elapsed events).filter (fun record => u.filter.shows record.level) =
      u.filter.records elapsed events := by
  rw [Log.Filter.records, Log.Filter.records, List.filter_map, List.filter_filter]
  refine congrArg _ (List.filter_congr fun event _ => ?_)
  show (u.filter.shows event.level && v.filter.shows event.level) = u.filter.shows event.level
  cases hshows : u.filter.shows event.level with
  | false => rfl
  | true => rw [Log.Verbosity.shows_of_le hle hshows]; rfl

section Runs

variable [Name.Spelling] {world : World} {p q : Request}

/-- **Requests for the same** differ in what they log, and in nothing else: what is done at the
console of the one is done at that of the other, and only the filters are not the same. -/
theorem onlyLogDiffers_run (hfolder : q.folder = p.folder) (haction : q.action = p.action)
    (hle : p.verbosity.number ≤ q.verbosity.number) (elapsed : String) :
    OnlyLogDiffers p.verbosity elapsed (p.run world) (q.run world) := by
  obtain ⟨result, lines, events, h⟩ := exists_performs world p.folder p.action
  have h' : Performs world q.folder q.action result lines events := by rwa [hfolder, haction]
  rw [run_of_performs h, run_of_performs h']
  have hfilter := filter_records hle elapsed events
  exact
    { code := rfl
      output := rfl
      report := rfl
      records := hfilter.symm
      sublist := by
        show (p.verbosity.filter.records elapsed events).Sublist
          (q.verbosity.filter.records elapsed events)
        rw [← hfilter]
        exact List.filter_sublist
      errorOutput := by
        show String.join ((p.verbosity.filter.records elapsed events).map Log.Record.line) ++ _ = _
        rw [← hfilter]
        rfl
      silent := fun hsilent => by
        rw [hsilent]
        exact List.map_eq_nil_iff.mpr (List.filter_eq_nil_iff.mpr fun _ _ => Bool.false_ne_true) }

/-- **Verbosity changes the log and nothing else.** Take any two command lines that ask for the same
but for the verbosity, whether and wherever and however it is given: whatever the files are, what is
printed, the exit code and the report are the same, and the log of the smaller verbosity is the part
of the other that passes its filter. And command lines that give the verbosity at the same place, in
any of the forms and by any texts that choose one, do ask for the same: the verbosities are those
that were given, unless a further one stands behind them that counts in both. Behind a separator it
would be a word. If none is given, it is the normal one. A command line that makes no request logs
nothing at all. -/
theorem only_log_differs (world : World) (elapsed : String) :
    (∀ arguments arguments' p q, Invocation.read world.folder? arguments = .asks p →
      Invocation.read world.folder? arguments' = .asks q → q.folder = p.folder →
        q.action = p.action → p.verbosity.number ≤ q.verbosity.number →
          OnlyLogDiffers p.verbosity elapsed (execute world arguments) (execute world arguments')) ∧
    (∀ before option option' rest text text' u v, "--" ∉ before → GivesVerbosity text option →
      GivesVerbosity text' option' → Log.Verbosity.ofText? text = some u →
        Log.Verbosity.ofText? text' = some v → ∀ p,
          Invocation.read world.folder? (before ++ (option ++ rest)) = .asks p →
            ∃ q, Invocation.read world.folder? (before ++ (option' ++ rest)) = .asks q ∧
              q.folder = p.folder ∧ q.action = p.action ∧
              (p.verbosity = u ∧ q.verbosity = v ∨
                p.verbosity = q.verbosity ∧ ∃ arg ∈ rest, Key.verbosity.Names arg) ∧
              (u.number ≤ v.number → OnlyLogDiffers p.verbosity elapsed
                (execute world (before ++ (option ++ rest)))
                (execute world (before ++ (option' ++ rest))))) ∧
    (∀ arguments p, Invocation.read world.folder? arguments = .asks p →
      (∀ arg ∈ arguments, ¬Key.verbosity.Names arg) → p.verbosity = .normal) ∧
    ∀ arguments, (∀ p, Invocation.read world.folder? arguments ≠ .asks p) →
      (execute world arguments).records elapsed = [] := by
  have hruns : ∀ arguments arguments' p q, Invocation.read world.folder? arguments = .asks p →
      Invocation.read world.folder? arguments' = .asks q → q.folder = p.folder →
        q.action = p.action → p.verbosity.number ≤ q.verbosity.number →
          OnlyLogDiffers p.verbosity elapsed (execute world arguments)
            (execute world arguments') := by
    intro arguments arguments' p q hp hq hfolder haction hle
    rw [execute_of_asks hp, execute_of_asks hq]
    exact onlyLogDiffers_run hfolder haction hle elapsed
  refine ⟨hruns, ?_, fun arguments p hp hnone => ?_, fun arguments hnone => ?_⟩
  · intro before option option' rest text text' u v hseparator hoption hoption' htext htext' p hp
    have hasks := read_eq_some_iff.mp (read_eq_asks_iff.mp hp)
    obtain ⟨q, hasks', hfolder, haction, hverbosity⟩ :=
      hasks.respell hseparator hoption hoption' htext htext'
    have hq := read_eq_asks_iff.mpr (read_eq_some_iff.mpr hasks')
    refine ⟨q, hq, hfolder, haction, hverbosity, fun hle => hruns _ _ p q hp hq hfolder haction ?_⟩
    rcases hverbosity with ⟨hu, hv⟩ | ⟨heq, -⟩
    · rw [hu, hv]
      exact hle
    · rw [heq]
  · exact (read_eq_some_iff.mp (read_eq_asks_iff.mp hp)).verbosity_normal hnone
  · cases hread : Invocation.read world.folder? arguments with
    | asks p => exact absurd hread (hnone p)
    | help topic => rw [execute_of_help hread]; rfl
    | refused => rw [execute_of_refused hread]; rfl

end Runs

section Example

open scoped Name.Table

/-- A deck list and no content. -/
def deckTexts : String → Option String
  | "counts.txt" => some "Hero: 3\n"
  | _ => none

theorem only_log_differs_deck :
    let run (arguments : List String) := execute (worldOf deckTexts) arguments
    OnlyLogDiffers .silent "1ms" (run ["-v0", "counts", "-d", "cards"])
        (run ["counts", "-d", "cards"]) ∧
      OnlyLogDiffers .normal "1ms" (run ["counts", "-d", "cards"])
        (run ["counts", "-d", "cards", "--verbosity", "VERBOSE"]) ∧
      (run ["counts", "-d", "cards"]).output = "  3  Hero\n  3  total\n" ∧
      (run ["counts", "-d", "cards", "--verbosity", "VERBOSE"]).records "1ms" =
        [⟨.debug, "read 1 lines from cards/counts.txt"⟩] := by
  intro run
  obtain ⟨hruns, -⟩ := only_log_differs (worldOf deckTexts) "1ms"
  have hsilent : Invocation.read none ["-v0", "counts", "-d", "cards"] =
      .asks ⟨"cards", .silent, .deck⟩ := rfl
  have hnormal : Invocation.read none ["counts", "-d", "cards"] =
      .asks ⟨"cards", .normal, .deck⟩ := rfl
  have hverbose : Invocation.read none ["counts", "-d", "cards", "--verbosity", "VERBOSE"] =
      .asks ⟨"cards", .verbose, .deck⟩ := rfl
  have hread : Deck.read (.folder "cards" (worldOf deckTexts).fileAt) =
      ⟨[.linesRead 1 "cards/counts.txt"], .ok (.ofEntries [⟨"Hero", 3⟩])⟩ := by
    have hfile := (holdsAt_worldOf deckTexts .counts).of_some rfl
    simp only [Deck.read, Source.folder, hfile, Utf8.text?_toUTF8]
    rfl
  have hdone : ∀ verbosity : Log.Verbosity,
      Request.run (worldOf deckTexts) ⟨"cards", verbosity, .deck⟩ = _ := fun verbosity =>
    run_of_performs (.deck (by rw [hread]) rfl)
  refine ⟨hruns _ _ _ _ hsilent hnormal rfl rfl (by decide),
    hruns _ _ _ _ hnormal hverbose rfl rfl (by decide), ?_, ?_⟩
  · show (execute _ _).output = _
    rw [execute_of_asks hnormal, hdone]
    rfl
  · show (execute _ _).records _ = _
    rw [execute_of_asks hverbose, hdone, hread]
    rfl

end Example

end Command

end CardContent
