import CardContent.Proofs.Command.Reading
import CardContent.Proofs.Command.Session

/-!
# Help and requests keep apart

A command line that makes a request does not ask for help: every argument that asks for help would
have to be an option or a value, and it is neither. So help takes no request away, and what a
command line comes to is a request exactly if one can be read of it.

Results:
* `Reads.untilHelp`: no argument that is read asks for help.
* `read_eq_asks_iff`: which command lines make a request.
* `topic?_append`: behind the argument that asks for help nothing is looked at.
* `execute_of_help`, `execute_of_refused`: how a program ends that carries no request out.
-/

set_option autoImplicit false

namespace CardContent.Command

variable {allowed : List Key} {stopAtWord : Bool} {given after : Given} {key : Key}
  {value arg : String} {args rest left : List String}

/-! ## Arguments that ask for help -/

/-- An argument that does not ask for help is passed over. -/
theorem untilHelp_cons {argument : Argument} (hread : Argument.read arg = argument)
    (hseparator : argument ≠ .separator) (hhelp : argument.asksHelp? = none) :
    untilHelp (arg :: rest) = (untilHelp rest).map fun found => (arg :: found.1, found.2) := by
  rw [untilHelp, hread]
  split
  · contradiction
  · rw [hhelp]

theorem isSome_untilHelp_cons {argument : Argument} (hread : Argument.read arg = argument)
    (hseparator : argument ≠ .separator) (hhelp : argument.asksHelp? = none) :
    (untilHelp (arg :: rest)).isSome = (untilHelp rest).isSome := by
  rw [untilHelp_cons hread hseparator hhelp, Option.isSome_map]

theorem untilHelp_of_asks {long : Bool} (hhelp : (Argument.read arg).asksHelp? = some long) :
    untilHelp (arg :: rest) = some ([], long) := by
  rw [untilHelp]
  split
  · rename_i hread
    rw [hread] at hhelp
    cases hhelp
  · rw [hhelp]

theorem asksHelp?_long (key : Key) (value? : Option String) :
    (Argument.long key.long value?).asksHelp? = none := by
  cases key <;> cases value? <;> rfl

theorem asksHelp?_short {letter : Char} (h : key.letter? = some letter) (behind : List Char) :
    (Argument.short letter behind).asksHelp? = none := by
  cases key with
  | data | verbosity =>
    cases h
    rfl
  | format | acquirable | defeatable | token => cases h

theorem isSome_untilHelp_word (hword : (Argument.read arg).isWord = true) :
    (untilHelp (arg :: rest)).isSome = (untilHelp rest).isSome := by
  cases hread : Argument.read arg with
  | word text => exact isSome_untilHelp_cons hread Argument.noConfusion rfl
  | separator | long | short =>
    rw [hread] at hword
    cases hword

/-- No argument of an option asks for help. -/
theorem Gives.isSome_untilHelp (h : Gives allowed args key value rest) :
    (untilHelp args).isSome = (untilHelp rest).isSome := by
  cases h with
  | flag _ hread | assigned _ hread =>
    exact isSome_untilHelp_cons hread Argument.noConfusion (asksHelp?_long key _)
  | spaced _ hread _ hword =>
    exact (isSome_untilHelp_cons hread Argument.noConfusion (asksHelp?_long key _)).trans
      (isSome_untilHelp_word hword)
  | attached _ hread hletter =>
    exact isSome_untilHelp_cons hread Argument.noConfusion (asksHelp?_short hletter _)
  | apart _ hread hletter _ hword =>
    exact (isSome_untilHelp_cons hread Argument.noConfusion (asksHelp?_short hletter _)).trans
      (isSome_untilHelp_word hword)

/-- **No argument that is read asks for help.** -/
theorem Reads.isSome_untilHelp (h : Reads allowed stopAtWord given args after left) :
    (untilHelp args).isSome = (untilHelp left).isSome := by
  induction h with
  | done | stop => rfl
  | @separator given arg rest hread =>
    have hnone : untilHelp (arg :: rest) = none := by rw [untilHelp, hread]
    rw [hnone]
    rfl
  | word _ hread _ ih => exact (isSome_untilHelp_cons hread Argument.noConfusion rfl).trans ih
  | option hgives _ _ ih => exact hgives.isSome_untilHelp.trans ih

/-! ## Requests -/

/-- What is left begins with a word. -/
theorem Reads.isWord_of_left {name : String}
    (h : Reads allowed stopAtWord given args after (name :: rest)) :
    (Argument.read name).isWord = true := by
  generalize hleft : name :: rest = left at h
  induction h with
  | done | separator => cases hleft
  | stop _ hread =>
    cases hleft
    rw [hread]
    rfl
  | word _ _ _ ih | option _ _ _ ih => exact ih hleft

/-- A command that is not `help` does not ask for help. -/
theorem topicOfCommand?_eq_none (h : Reads commonKeys true .nothing args given left)
    (hhelp : left.head? ≠ some "help") : topicOfCommand? args = none := by
  rw [topicOfCommand?, readArguments_eq_some_iff.mpr h]
  simp only [Option.bind_eq_bind, Option.bind_some]
  split
  · rfl
  · split
    · exact absurd rfl hhelp
    · exact absurd rfl hhelp
    · rfl

/-- **A command line that makes a request does not ask for help.** -/
theorem topic?_eq_none_of_asks {environment? : Option String} {request : Request}
    (h : Asks environment? args request) : topic? args = none := by
  have hcommand : ∀ {front : Given} {left : List String},
      Reads commonKeys true .nothing args front left → (untilHelp left).isSome = false →
        left.head? ≠ some "help" → topic? args = none := by
    intro front left hread huntil hhelp
    have hnone := Option.isSome_eq_false_iff.mp (hread.isSome_untilHelp.trans huntil)
    rw [topic?, Option.isNone_iff_eq_none.mp hnone]
    exact topicOfCommand?_eq_none hread hhelp
  cases h with
  | plain hread => exact hcommand hread rfl fun h => by cases h
  | command hread _ _ _ hname hbehind =>
    refine hcommand hread ?_ ?_
    · exact (isSome_untilHelp_word hread.isWord_of_left).trans hbehind.isSome_untilHelp
    · rintro h
      obtain rfl := Option.some.inj h
      cases hname

/-- **Which command lines make a request.** -/
theorem read_eq_asks_iff {environment? : Option String} {request : Request} :
    Invocation.read environment? args = .asks request ↔
      Request.read environment? args = some request := by
  constructor
  · intro h
    unfold Invocation.read at h
    split at h
    · cases h
    · split at h
      · rename_i hread
        cases h
        exact hread
      · cases h
  · intro h
    rw [Invocation.read, topic?_eq_none_of_asks (read_eq_some_iff.mp h), h]

/-- An argument that asks for help is the first that does so if none in front of it does. -/
theorem untilHelp_append {long : Bool} (hhelp : (Argument.read arg).asksHelp? = some long)
    (behind : List String) : ∀ {front : List String}, "--" ∉ front → untilHelp front = none →
      untilHelp (front ++ arg :: behind) = some (front, long)
  | [], _, _ => untilHelp_of_asks hhelp
  | first :: front, hseparator, hfront => by
    rw [List.mem_cons, not_or] at hseparator
    have hread : Argument.read first ≠ .separator := fun h => hseparator.1 (eq_of_separator h).symm
    cases hasks : (Argument.read first).asksHelp? with
    | some other => cases (untilHelp_of_asks hasks).symm.trans hfront
    | none =>
      rw [untilHelp_cons rfl hread hasks, Option.map_eq_none_iff] at hfront
      rw [List.cons_append, untilHelp_cons rfl hread hasks,
        untilHelp_append hhelp behind hseparator.2 hfront, Option.map_some]

/-- **What stands behind the argument that asks for help is not looked at.** -/
theorem topic?_append {front : List String} {long : Bool} (hseparator : "--" ∉ front)
    (hfront : untilHelp front = none) (hhelp : (Argument.read arg).asksHelp? = some long)
    (behind : List String) : topic? (front ++ arg :: behind) = topicBehind? front long := by
  rw [topic?, untilHelp_append hhelp behind hseparator hfront]

example : Invocation.read none ["-d", "cards", "show", "--help", "--no-such-option"] =
    .help ⟨some "show", true⟩ := rfl

/-! ## How a program ends -/

section Programs

variable [Name.Spelling] {world : World} {arguments : List String}

/-- A request is carried out. -/
theorem execute_of_asks {request : Request}
    (h : Invocation.read world.folder? arguments = .asks request) :
    execute world arguments = request.run world := by
  rw [execute, program, h, Request.run]

/-- **Help is printed and nothing else is done.** -/
theorem execute_of_help {topic : Topic}
    (h : Invocation.read world.folder? arguments = .help topic) :
    execute world arguments = ⟨none, .off, [world.help topic], []⟩ := by
  rw [execute, program, h]
  rfl

/-- **What is refused prints nothing.** -/
theorem execute_of_refused (h : Invocation.read world.folder? arguments = .refused) :
    execute world arguments = ⟨some (.refused (world.refusal arguments)), .fresh⟩ := by
  rw [execute, program, h]
  rfl

end Programs

end CardContent.Command
