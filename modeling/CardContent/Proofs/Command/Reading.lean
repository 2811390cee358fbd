import CardContent.Command.Request
import Mathlib.Data.List.Basic

/-!
# How a command line is read

The arguments of a command line are read from the left. `readArguments` has a case for every form
that an option may have and for everything that may be wrong with it; here the same is said by
rules, and only of what is right.

* `Gives allowed args key value rest` says that `args` begin with an option, in one of its five
  forms, and that `rest` is behind it.
* `Reads allowed stopAtWord given args after left` says that a stretch of arguments is read: what is
  given before it, what is given after it, and the arguments that are left.
* `Asks environment? arguments request` says what a whole command line asks for.
* `Key.Names key arg` says that an argument names an option.

Results:
* `readArguments_of_gives`: an option is given, and reading goes on behind it.
* `readArguments_eq_some_iff`, `read_eq_some_iff`: the rules describe reading.
* `readArguments_append`, `Reads.append_of_stop`: what is read in front is read so whatever stands
  behind it.
* `reads_append_cases`: and every reading of two pieces comes about in one of these ways, if the
  second one begins with an option and the first one has no separator in it.
* `Reads.names`: nothing is given that no argument names.
-/

set_option autoImplicit false

namespace CardContent.Command

/-! ## Rules -/

/-- `args` begin with an option, and `rest` is behind it. -/
inductive Gives (allowed : List Key) : List String → Key → String → List String → Prop where
  /-- `--name` of an option without a value. -/
  | flag {arg : String} {key : Key} {rest : List String} (hkey : key ∈ allowed)
      (hread : Argument.read arg = .long key.long none) (htakes : key.takesValue = false) :
      Gives allowed (arg :: rest) key "" rest
  /-- `--name=value`. -/
  | assigned {arg value : String} {key : Key} {rest : List String} (hkey : key ∈ allowed)
      (hread : Argument.read arg = .long key.long (some value)) (htakes : key.takesValue = true) :
      Gives allowed (arg :: rest) key value rest
  /-- `--name value`. -/
  | spaced {arg value : String} {key : Key} {rest : List String} (hkey : key ∈ allowed)
      (hread : Argument.read arg = .long key.long none) (htakes : key.takesValue = true)
      (hvalue : (Argument.read value).isWord = true) :
      Gives allowed (arg :: value :: rest) key value rest
  /-- `-lvalue` or `-l=value`. -/
  | attached {arg value : String} {letter : Char} {behind : List Char} {key : Key}
      {rest : List String} (hkey : key ∈ allowed)
      (hread : Argument.read arg = .short letter behind) (hletter : key.letter? = some letter)
      (hbehind : valueBehind behind = some value) : Gives allowed (arg :: rest) key value rest
  /-- `-l value`. -/
  | apart {arg value : String} {letter : Char} {behind : List Char} {key : Key}
      {rest : List String} (hkey : key ∈ allowed)
      (hread : Argument.read arg = .short letter behind) (hletter : key.letter? = some letter)
      (hbehind : valueBehind behind = none) (hvalue : (Argument.read value).isWord = true) :
      Gives allowed (arg :: value :: rest) key value rest

/-- Arguments are read. -/
inductive Reads (allowed : List Key) (stopAtWord : Bool) :
    Given → List String → Given → List String → Prop where
  | done {given : Given} : Reads allowed stopAtWord given [] given []
  | separator {given : Given} {arg : String} {rest : List String}
      (hread : Argument.read arg = .separator) :
      Reads allowed stopAtWord given (arg :: rest) (given.addWords rest) []
  | stop {given : Given} {arg text : String} {rest : List String} (hstop : stopAtWord = true)
      (hread : Argument.read arg = .word text) :
      Reads allowed stopAtWord given (arg :: rest) given (arg :: rest)
  | word {given after : Given} {arg text : String} {rest left : List String}
      (hstop : stopAtWord = false) (hread : Argument.read arg = .word text)
      (hrest : Reads allowed stopAtWord (given.addWords [text]) rest after left) :
      Reads allowed stopAtWord given (arg :: rest) after left
  | option {given next after : Given} {key : Key} {value : String} {args rest left : List String}
      (hgives : Gives allowed args key value rest) (hnext : given.option? key value = some next)
      (hrest : Reads allowed stopAtWord next rest after left) :
      Reads allowed stopAtWord given args after left

/-- A command line asks for a request. -/
inductive Asks (environment? : Option String) : List String → Request → Prop where
  /-- Without a command, all cards are listed. -/
  | plain {arguments : List String} {front : Given} {folder : String} {verbosity : Log.Verbosity}
      (hread : Reads commonKeys true .nothing arguments front []) (hwords : front.words = [])
      (hfolder : front.folder? environment? = some folder)
      (hverbosity : front.verbosity? = some verbosity) :
      Asks environment? arguments ⟨folder, verbosity, .content (.cards .text none)⟩
  /-- With a command, what is given behind it counts. -/
  | command {arguments rest : List String} {name folder folder' : String} {front behind : Given}
      {allowed : List Key} {verbosity verbosity' : Log.Verbosity} {action : Action}
      (hread : Reads commonKeys true .nothing arguments front (name :: rest))
      (hwords : front.words = []) (hfolder : front.folder? environment? = some folder)
      (hverbosity : front.verbosity? = some verbosity) (hname : keysOf? name = some allowed)
      (hbehind : Reads allowed false .nothing rest behind [])
      (haction : Action.of? name behind = some action)
      (hfolder' : behind.folder? environment? = some folder')
      (hverbosity' : behind.verbosity? = some verbosity') :
      Asks environment? arguments
        ⟨if behind.has .data || !front.has .data then folder' else folder,
          if behind.has .verbosity then verbosity' else verbosity, action⟩

/-- An argument names an option. -/
def Key.Names (key : Key) (arg : String) : Prop :=
  (∃ value?, Argument.read arg = .long key.long value?) ∨
    ∃ letter behind, Argument.read arg = .short letter behind ∧ key.letter? = some letter

variable {allowed : List Key} {stopAtWord : Bool} {given after : Given} {key : Key}
  {value : String} {args rest left before behind : List String}

/-! ## The forms of an argument -/

theorem eq_of_separator {text : String} (h : Argument.read text = .separator) : text = "--" := by
  unfold Argument.read at h
  split at h
  · rename_i htext
    rw [← String.ofList_toList (s := text), htext]
  all_goals cases h

/-- What begins with anything but a dash is a word. -/
theorem read_word {text : String} {c : Char} {cs : List Char} (hlist : text.toList = c :: cs)
    (hc : c ≠ '-') : Argument.read text = .word text := by
  unfold Argument.read
  split
  · rename_i h
    exact absurd (List.cons.inj (hlist.symm.trans h)).1 hc
  · rename_i h
    exact absurd (List.cons.inj (hlist.symm.trans h)).1 hc
  · rename_i h
    exact absurd (List.cons.inj (hlist.symm.trans h)).1 hc
  · rfl

/-- A letter behind a dash, and what is behind the letter. -/
theorem read_short {text : String} {c : Char} {cs : List Char}
    (hlist : text.toList = '-' :: c :: cs) (hc : c ≠ '-') : Argument.read text = .short c cs := by
  unfold Argument.read
  rw [hlist]
  split
  · rename_i h
    exact absurd (List.cons.inj (List.cons.inj h).2).1 hc
  · rename_i h
    exact absurd (List.cons.inj (List.cons.inj h).2).1 hc
  · rename_i h
    cases h
    rfl
  · rename_i h
    exact absurd rfl (h c cs)

/-- A name behind two dashes, and what is assigned to it. -/
theorem read_assigned {text : String} {c : Char} {cs value : List Char}
    (hlist : text.toList = '-' :: '-' :: (c :: cs ++ '=' :: value)) (hname : '=' ∉ c :: cs) :
    Argument.read text = .long (String.ofList (c :: cs)) (some (String.ofList value)) := by
  have hfree : ∀ x ∈ c :: cs, (x != '=') = true := fun x hx =>
    bne_iff_ne.mpr fun heq => hname (heq ▸ hx)
  unfold Argument.read
  rw [hlist]
  simp only [List.cons_append]
  rw [← List.cons_append, List.takeWhile_append_of_pos hfree, List.dropWhile_append_of_pos hfree]
  simp

/-! ## Options -/

theorem Key.long_injective : Function.Injective Key.long := by
  intro a b h
  cases a <;> cases b <;> first | rfl | exact absurd h (by decide)

theorem Key.eq_of_letter {a b : Key} {letter : Char} (ha : a.letter? = some letter)
    (hb : b.letter? = some letter) : a = b := by
  have h := ha.trans hb.symm
  have hsome : a.letter? ≠ none := by rw [ha]; exact Option.some_ne_none _
  revert h hsome
  cases a <;> cases b <;> decide

/-- What at most one member satisfies is found exactly where it is a member. -/
theorem find?_eq_some_iff_of_unique {p : Key → Bool} (hp : ∀ a b, p a = true → p b = true → a = b) :
    allowed.find? p = some key ↔ key ∈ allowed ∧ p key = true := by
  constructor
  · exact fun h => ⟨List.mem_of_find?_eq_some h, List.find?_some h⟩
  · rintro ⟨hmem, hkey⟩
    obtain ⟨found, hfound⟩ := Option.isSome_iff_exists.mp
      (List.find?_isSome.mpr ⟨key, hmem, hkey⟩)
    rw [hfound, hp found key (List.find?_some hfound) hkey]

theorem find?_long_iff {name : String} : (allowed.find? fun key => key.long = name) = some key ↔
    key ∈ allowed ∧ key.long = name := by
  refine (find?_eq_some_iff_of_unique fun a b ha hb => ?_).trans (by rw [decide_eq_true_eq])
  exact Key.long_injective ((of_decide_eq_true ha).trans (of_decide_eq_true hb).symm)

theorem find?_letter_iff {letter : Char} :
    (allowed.find? fun key => key.letter? = some letter) = some key ↔
      key ∈ allowed ∧ key.letter? = some letter := by
  refine (find?_eq_some_iff_of_unique fun a b ha hb => ?_).trans (by rw [decide_eq_true_eq])
  exact Key.eq_of_letter (of_decide_eq_true ha) (of_decide_eq_true hb)

theorem words_of_option? {next : Given} (h : given.option? key value = some next) :
    next.words = given.words := by
  unfold Given.option? at h
  split at h
  · cases h
  · cases h
    rfl

/-- An option changes its own value. -/
theorem Given.value?_option? {next : Given} (h : given.option? key value = some next)
    (other : Key) : next.value? other = if other = key then some value else given.value? other := by
  unfold Given.option? at h
  split at h
  · cases h
  · cases h
    unfold Given.value?
    by_cases hother : other = key
    · rw [if_pos hother, hother, List.lookup_cons_self]
    · rw [if_neg hother, List.lookup_cons, beq_false_of_ne hother]

/-- An option can be given once. -/
theorem Given.exists_option?_iff :
    (∃ next, given.option? key value = some next) ↔ given.value? key = none := by
  unfold Given.option? Given.has
  cases given.value? key <;> simp

/-- **An option is given**, and reading goes on behind it. -/
theorem readArguments_of_gives (h : Gives allowed args key value rest) :
    readArguments allowed stopAtWord given args =
      (given.option? key value).bind fun next => readArguments allowed stopAtWord next rest := by
  cases h with
  | flag hkey hread htakes =>
    rw [readArguments, hread]
    simp [find?_long_iff.mpr ⟨hkey, rfl⟩, htakes]
  | assigned hkey hread htakes =>
    rw [readArguments, hread]
    simp [find?_long_iff.mpr ⟨hkey, rfl⟩, htakes]
  | spaced hkey hread htakes hvalue =>
    rw [readArguments, hread]
    simp [find?_long_iff.mpr ⟨hkey, rfl⟩, htakes, hvalue]
  | attached hkey hread hletter hbehind =>
    rw [readArguments, hread]
    simp [find?_letter_iff.mpr ⟨hkey, hletter⟩, hbehind]
  | apart hkey hread hletter hbehind hvalue =>
    rw [readArguments, hread]
    simp [find?_letter_iff.mpr ⟨hkey, hletter⟩, hbehind, hvalue]

theorem Gives.names (h : Gives allowed args key value rest) : ∃ arg ∈ args, key.Names arg := by
  cases h with
  | flag _ hread | assigned _ hread | spaced _ hread =>
    exact ⟨_, List.mem_cons_self, .inl ⟨_, hread⟩⟩
  | attached _ hread hletter | apart _ hread hletter =>
    exact ⟨_, List.mem_cons_self, .inr ⟨_, _, hread, hletter⟩⟩

/-- An option does not begin with a word. -/
theorem Gives.head_not_word (h : Gives allowed args key value rest) :
    ∀ next ∈ args.head?, (Argument.read next).isWord = false := by
  intro next hnext
  cases h with
  | flag _ hread | assigned _ hread | spaced _ hread | attached _ hread | apart _ hread =>
    obtain rfl := Option.some.inj hnext
    rw [hread]
    rfl

theorem Gives.suffix (h : Gives allowed args key value rest) : rest <:+ args := by
  cases h with
  | flag | assigned | attached => exact List.suffix_cons _ _
  | spaced | apart => exact (List.suffix_cons _ _).trans (List.suffix_cons _ _)

/-! ## Reading is what the rules say -/

theorem reads_of_readArguments
    (h : readArguments allowed stopAtWord given args = some (after, left)) :
    Reads allowed stopAtWord given args after left := by
  fun_induction readArguments allowed stopAtWord given args with
  | case1 =>
    cases h
    exact .done
  | case2 given arg rest hread =>
    cases h
    exact .separator hread
  | case3 given arg rest text hread hstop =>
    cases h
    exact .stop hstop hread
  | case4 given arg rest text hread hstop ih =>
    exact .word (by simpa using hstop) hread (ih h)
  | case5 | case9 | case10 | case11 | case14 | case15 => cases h
  | case6 given arg name key hkey rest htakes hread ih =>
    obtain ⟨next, hnext, hrest⟩ := Option.bind_eq_some_iff.mp h
    obtain ⟨hmem, rfl⟩ := find?_long_iff.mp hkey
    exact .option (.flag hmem hread htakes) hnext (ih next hrest)
  | case7 given arg name key hkey value rest htakes hread ih =>
    obtain ⟨next, hnext, hrest⟩ := Option.bind_eq_some_iff.mp h
    obtain ⟨hmem, rfl⟩ := find?_long_iff.mp hkey
    exact .option (.assigned hmem hread htakes) hnext (ih next hrest)
  | case8 given arg name key hkey value rest htakes hvalue hread ih =>
    obtain ⟨next, hnext, hrest⟩ := Option.bind_eq_some_iff.mp h
    obtain ⟨hmem, rfl⟩ := find?_long_iff.mp hkey
    exact .option (.spaced hmem hread htakes hvalue) hnext (ih next hrest)
  | case12 given arg letter attached hread key hkey value rest hattached ih =>
    obtain ⟨next, hnext, hrest⟩ := Option.bind_eq_some_iff.mp h
    obtain ⟨hmem, hletter⟩ := find?_letter_iff.mp hkey
    exact .option (.attached hmem hread hletter hattached) hnext (ih next hrest)
  | case13 given arg letter attached hread key hkey value rest hattached hvalue ih =>
    obtain ⟨next, hnext, hrest⟩ := Option.bind_eq_some_iff.mp h
    obtain ⟨hmem, hletter⟩ := find?_letter_iff.mp hkey
    exact .option (.apart hmem hread hletter hattached hvalue) hnext (ih next hrest)

/-- **The rules describe reading.** -/
theorem readArguments_eq_some_iff :
    readArguments allowed stopAtWord given args = some (after, left) ↔
      Reads allowed stopAtWord given args after left := by
  refine ⟨reads_of_readArguments, fun h => ?_⟩
  induction h with
  | done => rfl
  | separator hread => rw [readArguments, hread]
  | stop hstop hread =>
    rw [readArguments, hread]
    exact if_pos hstop
  | word hstop hread _ ih =>
    rw [readArguments, hread]
    exact (if_neg (by simp [hstop])).trans ih
  | option hgives hnext _ ih =>
    rw [readArguments_of_gives hgives, hnext]
    exact ih

/-- An option in front is given before anything else is read. -/
theorem reads_of_gives_iff (h : Gives allowed args key value rest) :
    Reads allowed stopAtWord given args after left ↔
      ∃ next, given.option? key value = some next ∧
        Reads allowed stopAtWord next rest after left := by
  rw [← readArguments_eq_some_iff, readArguments_of_gives h, Option.bind_eq_some_iff]
  simp only [readArguments_eq_some_iff]

/-- Nothing is left where words are gathered. -/
theorem Reads.left_eq_nil (h : Reads allowed false given args after left) : left = [] := by
  generalize hstop : false = stopAtWord at h
  induction h with
  | done | separator => rfl
  | stop hstop' => cases hstop.trans hstop'
  | word _ _ _ ih | option _ _ _ ih => exact ih

/-- **The rules describe command lines.** -/
theorem read_eq_some_iff {environment? : Option String} {request : Request} :
    Request.read environment? args = some request ↔ Asks environment? args request := by
  unfold Request.read
  simp only [Option.bind_eq_bind, Option.bind_eq_some_iff, Prod.exists, readArguments_eq_some_iff]
  constructor
  · rintro ⟨front, rest, hread, folder, hfolder, verbosity, hverbosity, h⟩
    split at h
    · rename_i hwords
      cases h
      exact .plain hread hwords hfolder hverbosity
    · rename_i name rest hwords
      simp only [Option.bind_eq_some_iff, Prod.exists, readArguments_eq_some_iff] at h
      obtain ⟨allowed, hname, behind, left, hbehind, action, haction, folder', hfolder', verbosity',
        hverbosity', h⟩ := h
      obtain rfl := hbehind.left_eq_nil
      cases h
      exact .command hread hwords hfolder hverbosity hname hbehind haction hfolder' hverbosity'
    · cases h
  · intro h
    cases h with
    | plain hread hwords hfolder hverbosity =>
      refine ⟨_, _, hread, _, hfolder, _, hverbosity, ?_⟩
      simp [hwords]
    | command hread hwords hfolder hverbosity hname hbehind haction hfolder' hverbosity' =>
      refine ⟨_, _, hread, _, hfolder, _, hverbosity, ?_⟩
      have hrest := readArguments_eq_some_iff.mpr hbehind
      simp [hwords, hname, hrest, haction, hfolder', hverbosity']

/-! ## Piece by piece -/

/-- What is behind an option is behind it with more arguments, too. -/
theorem Gives.append (h : Gives allowed args key value rest) (more : List String) :
    Gives allowed (args ++ more) key value (rest ++ more) := by
  cases h with
  | flag hkey hread htakes => exact .flag hkey hread htakes
  | assigned hkey hread htakes => exact .assigned hkey hread htakes
  | spaced hkey hread htakes hvalue => exact .spaced hkey hread htakes hvalue
  | attached hkey hread hletter hbehind => exact .attached hkey hread hletter hbehind
  | apart hkey hread hletter hbehind hvalue => exact .apart hkey hread hletter hbehind hvalue

/-- An option does not reach into arguments that begin with another option. -/
theorem Gives.of_append {arg : String} (hnext : ∀ next ∈ behind.head?,
    (Argument.read next).isWord = false)
    (h : Gives allowed (arg :: (before ++ behind)) key value rest) :
    ∃ left, rest = left ++ behind ∧ Gives allowed (arg :: before) key value left := by
  -- the value of an option is a word, so it stands in `before`
  have hvalue : ∀ {value : String} {rest : List String},
      before ++ behind = value :: rest → (Argument.read value).isWord = true →
        ∃ left, before = value :: left ∧ rest = left ++ behind := by
    intro value rest heq hword
    cases before with
    | nil =>
      have := hnext value (by rw [show behind = value :: rest from heq]; rfl)
      rw [hword] at this
      cases this
    | cons first left =>
      obtain ⟨rfl, rfl⟩ := List.cons.inj heq
      exact ⟨left, rfl, rfl⟩
  generalize hargs : before ++ behind = args at h
  cases h with
  | flag hkey hread htakes => exact ⟨before, hargs.symm, .flag hkey hread htakes⟩
  | assigned hkey hread htakes => exact ⟨before, hargs.symm, .assigned hkey hread htakes⟩
  | attached hkey hread hletter hbehind =>
    exact ⟨before, hargs.symm, .attached hkey hread hletter hbehind⟩
  | spaced hkey hread htakes hword =>
    obtain ⟨left, rfl, rfl⟩ := hvalue hargs hword
    exact ⟨left, rfl, .spaced hkey hread htakes hword⟩
  | apart hkey hread hletter hbehind hword =>
    obtain ⟨left, rfl, rfl⟩ := hvalue hargs hword
    exact ⟨left, rfl, .apart hkey hread hletter hbehind hword⟩

/-- **Arguments that are read to the end** can be followed by any others. -/
theorem readArguments_append (hseparator : "--" ∉ before)
    (h : Reads allowed stopAtWord given before after []) (behind : List String) :
    readArguments allowed stopAtWord given (before ++ behind) =
      readArguments allowed stopAtWord after behind := by
  generalize hleft : [] = left at h
  induction h with
  | done => rfl
  | separator hread =>
    exact absurd (eq_of_separator hread ▸ List.mem_cons_self) hseparator
  | stop => cases hleft
  | word hstop hread _ ih =>
    rw [List.cons_append, readArguments, hread]
    exact (if_neg (by simp [hstop])).trans (ih (List.not_mem_of_not_mem_cons hseparator) hleft)
  | option hgives hnext _ ih =>
    rw [readArguments_of_gives (hgives.append behind), hnext]
    exact ih (fun hmem => hseparator (hgives.suffix.mem hmem)) hleft

/-- **Arguments that are read up to a word** are so with others behind them. -/
theorem Reads.append_of_stop {name : String}
    (h : Reads allowed stopAtWord given before after (name :: rest)) (behind : List String) :
    Reads allowed stopAtWord given (before ++ behind) after (name :: rest ++ behind) := by
  generalize hleft : name :: rest = left at h
  induction h with
  | done | separator => cases hleft
  | stop hstop hread => exact .stop hstop hread
  | word hstop hread _ ih => exact .word hstop hread (ih hleft)
  | option hgives hnext _ ih => exact .option (hgives.append behind) hnext (ih hleft)

/-- **Two pieces of a command line are read one after the other**, or reading stops in the first. -/
theorem reads_append_cases (hseparator : "--" ∉ before)
    (hnext : ∀ next ∈ behind.head?, (Argument.read next).isWord = false)
    (h : Reads allowed stopAtWord given (before ++ behind) after left) :
    (∃ middle, Reads allowed stopAtWord given before middle [] ∧
      Reads allowed stopAtWord middle behind after left) ∨
    ∃ name rest, Reads allowed stopAtWord given before after (name :: rest) ∧
      left = name :: rest ++ behind := by
  generalize hargs : before ++ behind = args at h
  induction h generalizing before with
  | @done given =>
    obtain ⟨rfl, rfl⟩ := List.append_eq_nil_iff.mp hargs
    exact .inl ⟨given, .done, .done⟩
  | @separator given arg rest hread =>
    cases before with
    | nil =>
      obtain rfl : behind = arg :: rest := hargs
      exact .inl ⟨given, .done, .separator hread⟩
    | cons first before =>
      obtain ⟨rfl, rfl⟩ := List.cons.inj hargs
      exact absurd (eq_of_separator hread ▸ List.mem_cons_self) hseparator
  | @stop given arg text rest hstop hread =>
    cases before with
    | nil =>
      obtain rfl : behind = arg :: rest := hargs
      exact .inl ⟨given, .done, .stop hstop hread⟩
    | cons first before =>
      obtain ⟨rfl, rfl⟩ := List.cons.inj hargs
      exact .inr ⟨first, before, .stop hstop hread, rfl⟩
  | @word given after arg text rest left hstop hread hrest ih =>
    cases before with
    | nil =>
      obtain rfl : behind = arg :: rest := hargs
      exact .inl ⟨given, .done, .word hstop hread hrest⟩
    | cons first before =>
      obtain ⟨rfl, rfl⟩ := List.cons.inj hargs
      rcases ih (List.not_mem_of_not_mem_cons hseparator) rfl with
        ⟨middle, hbefore, hbehind⟩ | ⟨name, rest, hbefore, hleft⟩
      · exact .inl ⟨middle, .word hstop hread hbefore, hbehind⟩
      · exact .inr ⟨name, rest, .word hstop hread hbefore, hleft⟩
  | @option given next after key value args rest left hgives hgiven hrest ih =>
    cases before with
    | nil =>
      obtain rfl : behind = args := hargs
      exact .inl ⟨given, .done, .option hgives hgiven hrest⟩
    | cons first before =>
      obtain rfl : first :: (before ++ behind) = args := hargs
      obtain ⟨piece, rfl, hpiece⟩ := Gives.of_append hnext hgives
      have hmem : "--" ∉ piece := fun hmem => hseparator (hpiece.suffix.mem hmem)
      rcases ih hmem rfl with ⟨middle, hbefore, hbehind⟩ | ⟨name, rest, hbefore, hleft⟩
      · exact .inl ⟨middle, .option hpiece hgiven hbefore, hbehind⟩
      · exact .inr ⟨name, rest, .option hpiece hgiven hbefore, hleft⟩

/-- What is left stood at the end. -/
theorem Reads.suffix (h : Reads allowed stopAtWord given args after left) : left <:+ args := by
  induction h with
  | done | stop => exact List.suffix_refl _
  | separator => exact List.nil_suffix
  | word _ _ _ ih => exact ih.trans (List.suffix_cons _ _)
  | option hgives _ _ ih => exact ih.trans hgives.suffix

/-- What is given was given before or is named by an argument. -/
theorem Reads.names (h : Reads allowed stopAtWord given args after left)
    (hhas : after.has key = true) : given.has key = true ∨ ∃ arg ∈ args, key.Names arg := by
  induction h with
  | done | stop | separator => exact .inl hhas
  | word _ _ _ ih =>
    rcases ih hhas with hgiven | ⟨arg, harg, hnames⟩
    · exact .inl hgiven
    · exact .inr ⟨arg, List.mem_cons_of_mem _ harg, hnames⟩
  | @option given next after other value args rest left hgives hnext _ ih =>
    by_cases hother : key = other
    · subst hother
      exact .inr hgives.names
    · rcases ih hhas with hgiven | ⟨arg, harg, hnames⟩
      · rw [Given.has, Given.value?_option? hnext, if_neg hother] at hgiven
        exact .inl hgiven
      · exact .inr ⟨arg, hgives.suffix.mem harg, hnames⟩

end CardContent.Command
