import CardContent.Content.Load

/-!
# One load among any callers

Callers load content, decode content and ask whether the load has been claimed, any number of them
at the same time. What they share is the guard. A load claims it and a question looks at it, each in
one step that nothing comes between, so these steps have an order; a decoding passes the guard by.
Behind that step a caller who decodes is alone with the source until the answer is there.

* `Process` is the guard with all callers so far. A `Move` is a new caller or the next step of one,
  and a list of moves is one way in which their steps can come between each other. Somebody who
  calls again stands there as another caller.
* `turns` is the order in which callers came to the guard. No step looks at it.
* `Ask.answer` is what an ask is answered, by whether a load came to the guard before.

Results:
* `outlook?_next`: the step at the guard settles the answer, and no later step changes it.
* `sound_run`: every answer, given or to come, is the one that the order of turns demands.
* `run_of_answered`, `answered_of_steps`: an answer once given stays, and two steps bring one.
* `run_load_alone`: a load with nothing between its steps is the `load` of the guard.
* `orderly_run`: all of this about every run.
-/

set_option autoImplicit false

namespace CardContent.LoadGuard

/-- What callers ask. -/
inductive Ask where
  /-- Load the content of a source. -/
  | load (source : Source)
  /-- Decode the content of a source, without a claim. -/
  | decode (source : Source)
  /-- Has the load been claimed? -/
  | isClaimed

/-- What callers are answered. -/
inductive Answer where
  | content (result : Logged Content)
  | claimed (yes : Bool)

namespace Ask

/-- Whether the ask claims the load. -/
def isLoad : Ask → Bool
  | .load _ => true
  | _ => false

/-- The answer to an ask when the load has been claimed before or not: the first load decodes, a
later one is refused whatever its source, and a decoding never heeds the claim. -/
def answer [Name.Spelling] (claimed : Bool) : Ask → Answer
  | .load source => .content (if claimed then .error .alreadyLoaded else Content.decode source)
  | .decode source => .content (Content.decode source)
  | .isClaimed => .claimed claimed

end Ask

/-- How far a caller is. -/
inductive Phase where
  /-- In front of the guard. -/
  | waiting
  /-- Past the guard, on the way through a decoding. -/
  | decoding (source : Source)
  | answered (answer : Answer)

namespace Phase

/-- The answer that a caller has or will have, which is settled at the guard. -/
def outlook? [Name.Spelling] : Phase → Option Answer
  | .waiting => none
  | .decoding source => some (.content (Content.decode source))
  | .answered answer => some answer

/-- The number of steps up to the answer, at most. -/
def due : Phase → Nat
  | .waiting => 2
  | .decoding _ => 1
  | .answered _ => 0

theorem due_le_two (phase : Phase) : phase.due ≤ 2 := by
  cases phase with
  | waiting => exact Nat.le_refl 2
  | decoding source => exact Nat.le_succ 1
  | answered answer => exact Nat.zero_le 2

theorem answered_of_due {phase : Phase} (h : phase.due = 0) :
    ∃ answer, phase = .answered answer := by
  cases phase with
  | waiting => cases h
  | decoding source => cases h
  | answered answer => exact ⟨answer, rfl⟩

end Phase

/-- Somebody who asked something. -/
structure Caller where
  ask : Ask
  phase : Phase

/-- The step of an ask at the guard: where it leaves the caller, and the guard. -/
def turn (guard : LoadGuard) : Ask → Phase × LoadGuard
  | .load source =>
    match guard.claim with
    | (true, guard) => (.decoding source, guard)
    | (false, guard) => (.answered (.content (.error .alreadyLoaded)), guard)
  | .decode source => (.decoding source, guard)
  | .isClaimed => (.answered (.claimed guard.claimed), guard)

namespace Caller

/-- The next step of a caller, and the guard behind it. -/
def next [Name.Spelling] (guard : LoadGuard) (caller : Caller) : Caller × LoadGuard :=
  match caller.phase with
  | .waiting => (⟨caller.ask, (guard.turn caller.ask).1⟩, (guard.turn caller.ask).2)
  | .decoding source =>
    (⟨caller.ask, .answered (.content (Content.decode source))⟩, guard)
  | .answered _ => (caller, guard)

/-- The turn that the next step of a caller is, if it is one. -/
def nextTurn (i : Nat) (caller : Caller) : List (Nat × Ask) :=
  match caller.phase with
  | .waiting => [(i, caller.ask)]
  | _ => []

end Caller

/-- The guard and its callers. -/
structure Process where
  guard : LoadGuard
  /-- Everybody who asked something, in the order of asking. -/
  callers : List Caller
  /-- The callers who came to the guard, in the order of coming, and what they asked. -/
  turns : List (Nat × Ask)

/-- A move of a process. -/
inductive Move where
  /-- Somebody asks something. -/
  | call (ask : Ask)
  /-- The next step of a caller, if there is one. -/
  | step (caller : Nat)

/-- Whether a move is a step of this caller. -/
def Move.isStepOf (i : Nat) : Move → Bool
  | .call _ => false
  | .step j => j == i

theorem Move.eq_step_of_isStepOf {i : Nat} {m : Move} (h : m.isStepOf i = true) :
    m = .step i := by
  cases m with
  | call ask => cases h
  | step j => rw [eq_of_beq h]

/-- Whether a load is among the turns. -/
def claimedIn (turns : List (Nat × Ask)) : Bool :=
  turns.any fun turn => turn.2.isLoad

namespace Process

/-- The process at the beginning. -/
def start : Process := ⟨.fresh, [], []⟩

/-- The process after a move. -/
def move [Name.Spelling] (p : Process) : Move → Process
  | .call ask => { p with callers := p.callers ++ [⟨ask, .waiting⟩] }
  | .step i =>
    match p.callers[i]? with
    | none => p
    | some caller =>
      { guard := (caller.next p.guard).2
        callers := p.callers.set i (caller.next p.guard).1
        turns := p.turns ++ caller.nextTurn i }

/-- The process after moves, one behind the other. -/
def run [Name.Spelling] (p : Process) (moves : List Move) : Process :=
  moves.foldl move p

end Process

/-! ## The step of a caller -/

/-- **The guard is claimed** once a load has come to it. -/
theorem claimed_turn (guard : LoadGuard) (ask : Ask) :
    (guard.turn ask).2.claimed = (guard.claimed || ask.isLoad) := by
  obtain ⟨claimed⟩ := guard
  cases ask <;> cases claimed <;> rfl

theorem due_turn_le (guard : LoadGuard) (ask : Ask) : (guard.turn ask).1.due ≤ 1 := by
  obtain ⟨claimed⟩ := guard
  cases ask <;> cases claimed <;> simp [turn, claim, Phase.due]

variable [Name.Spelling] {guard : LoadGuard} {p : Process} {i : Nat} {caller : Caller} {ask : Ask}
  {answer : Answer}

/-- **The step at the guard settles the answer.** -/
theorem outlook?_turn (guard : LoadGuard) (ask : Ask) :
    (guard.turn ask).1.outlook? = some (ask.answer guard.claimed) := by
  obtain ⟨claimed⟩ := guard
  cases ask <;> cases claimed <;> rfl

namespace Caller

theorem ask_next (guard : LoadGuard) (caller : Caller) :
    (caller.next guard).1.ask = caller.ask := by
  obtain ⟨ask, phase⟩ := caller
  cases phase <;> rfl

/-- **An outlook stays**, and a caller without one comes to the guard for it. -/
theorem outlook?_next (guard : LoadGuard) (caller : Caller) :
    (caller.next guard).1.phase.outlook? =
      some (caller.phase.outlook?.getD (caller.ask.answer guard.claimed)) := by
  obtain ⟨ask, phase⟩ := caller
  cases phase with
  | waiting => exact outlook?_turn guard ask
  | decoding source => rfl
  | answered answer => rfl

/-- Only the turn of a load claims anything. -/
theorem claimed_next (guard : LoadGuard) (caller : Caller) (i : Nat) :
    (caller.next guard).2.claimed = (guard.claimed || claimedIn (caller.nextTurn i)) := by
  obtain ⟨ask, phase⟩ := caller
  cases phase with
  | waiting =>
    show (guard.turn ask).2.claimed = (guard.claimed || (ask.isLoad || false))
    rw [claimed_turn, Bool.or_false]
  | decoding source => exact (Bool.or_false guard.claimed).symm
  | answered answer => exact (Bool.or_false guard.claimed).symm

theorem nextTurn_of_outlook (h : caller.phase.outlook? = some answer) :
    caller.nextTurn i = [] := by
  obtain ⟨ask, phase⟩ := caller
  cases phase with
  | waiting => cases h
  | decoding source => rfl
  | answered answer => rfl

theorem nextTurn_of_no_outlook (h : caller.phase.outlook? = none) :
    caller.nextTurn i = [(i, caller.ask)] := by
  obtain ⟨ask, phase⟩ := caller
  cases phase with
  | waiting => rfl
  | decoding source => cases h
  | answered answer => cases h

theorem due_next_le (guard : LoadGuard) (caller : Caller) :
    (caller.next guard).1.phase.due ≤ caller.phase.due - 1 := by
  obtain ⟨ask, phase⟩ := caller
  cases phase with
  | waiting => exact due_turn_le guard ask
  | decoding source => exact Nat.le_refl 0
  | answered answer => exact Nat.le_refl 0

end Caller

namespace Process

/-! ## Moves -/

theorem move_step (h : p.callers[i]? = some caller) :
    p.move (.step i) =
      ⟨(caller.next p.guard).2, p.callers.set i (caller.next p.guard).1,
        p.turns ++ caller.nextTurn i⟩ := by
  rw [move, h]

/-- A caller is changed by its own steps only. -/
theorem callers_move_of_ne {m : Move} (hm : m.isStepOf i = false)
    (h : p.callers[i]? = some caller) : (p.move m).callers[i]? = some caller := by
  cases m with
  | call ask =>
    exact List.getElem?_append_left (List.getElem?_eq_some_iff.mp h).1 |>.trans h
  | step j =>
    rw [move]
    split
    · exact h
    · rw [List.getElem?_set_ne (beq_eq_false_iff_ne.mp hm)]
      exact h

theorem callers_step (h : p.callers[i]? = some caller) :
    (p.move (.step i)).callers[i]? = some (caller.next p.guard).1 := by
  rw [move_step h]
  exact List.getElem?_set_self (List.getElem?_eq_some_iff.mp h).1

/-- **An outlook stays** through every move. -/
theorem outlook_move (m : Move) (h : p.callers[i]? = some caller)
    (houtlook : caller.phase.outlook? = some answer) :
    ∃ later, (p.move m).callers[i]? = some later ∧ later.ask = caller.ask ∧
      later.phase.outlook? = some answer := by
  cases hm : m.isStepOf i with
  | false => exact ⟨caller, callers_move_of_ne hm h, rfl, houtlook⟩
  | true =>
    obtain rfl := Move.eq_step_of_isStepOf hm
    refine ⟨_, callers_step h, Caller.ask_next p.guard caller, ?_⟩
    rw [Caller.outlook?_next, houtlook]
    rfl

/-! ## Every answer is in order -/

/-- The guard and the answers agree with the order in which callers came to the guard. -/
structure Sound (p : Process) : Prop where
  /-- The guard is claimed exactly if a load came to it. -/
  guard : p.guard.claimed = claimedIn p.turns
  /-- Nobody comes to the guard twice. -/
  once : (p.turns.map Prod.fst).Nodup
  /-- Whoever came to the guard has the answer, or will have it, that the turns before demand. -/
  settled : ∀ before i ask after, p.turns = before ++ (i, ask) :: after →
    ∃ caller, p.callers[i]? = some caller ∧ caller.ask = ask ∧
      caller.phase.outlook? = some (ask.answer (claimedIn before))
  /-- Whoever did not come to the guard has no answer. -/
  turned : ∀ i caller, p.callers[i]? = some caller → (i, caller.ask) ∉ p.turns →
    caller.phase.outlook? = none

/-- Whoever came to the guard has an outlook. -/
theorem Sound.exists_outlook (h : Sound p) (hturn : (i, ask) ∈ p.turns) :
    ∃ caller answer, p.callers[i]? = some caller ∧ caller.phase.outlook? = some answer := by
  obtain ⟨before, after, hturns⟩ := List.append_of_mem hturn
  obtain ⟨caller, hcaller, -, houtlook⟩ := h.settled before i ask after hturns
  exact ⟨caller, _, hcaller, houtlook⟩

/-- The outlook of whoever came to the guard stays. -/
theorem Sound.settled_kept (h : Sound p) (m : Move) {before after : List (Nat × Ask)}
    (hturns : p.turns = before ++ (i, ask) :: after) :
    ∃ caller, (p.move m).callers[i]? = some caller ∧ caller.ask = ask ∧
      caller.phase.outlook? = some (ask.answer (claimedIn before)) := by
  obtain ⟨caller, hcaller, rfl, houtlook⟩ := h.settled before i ask after hturns
  exact outlook_move m hcaller houtlook

theorem sound_start : Sound start where
  guard := rfl
  once := List.nodup_nil
  settled before i ask after h := absurd h.symm (by simp [start])
  turned i caller h := by cases h

theorem sound_call (h : Sound p) (ask : Ask) : Sound (p.move (.call ask)) where
  guard := h.guard
  once := h.once
  settled _ _ _ _ hturns := h.settled_kept (.call ask) hturns
  turned i caller hcaller hturn := by
    by_cases hi : i < p.callers.length
    · exact h.turned i caller ((List.getElem?_append_left hi).symm.trans hcaller) hturn
    · have hnew := (List.getElem?_append_right (Nat.not_lt.mp hi)).symm.trans hcaller
      rw [List.mem_singleton.mp (List.mem_of_getElem? hnew)]
      rfl

/-- A caller who makes a step came to the guard before or does so now. -/
theorem Sound.mem_turns_step (h : Sound p) (hcaller : p.callers[i]? = some caller) :
    (i, caller.ask) ∈ p.turns ++ caller.nextTurn i := by
  cases houtlook : caller.phase.outlook? with
  | none =>
    rw [Caller.nextTurn_of_no_outlook houtlook]
    exact List.mem_append_right _ (List.mem_singleton_self _)
  | some answer =>
    refine List.mem_append_left _ (Classical.byContradiction fun hturn => ?_)
    rw [h.turned i caller hcaller hturn] at houtlook
    cases houtlook

theorem Sound.once_step (h : Sound p) (hcaller : p.callers[i]? = some caller) :
    ((p.turns ++ caller.nextTurn i).map Prod.fst).Nodup := by
  cases houtlook : caller.phase.outlook? with
  | some answer =>
    rw [Caller.nextTurn_of_outlook houtlook, List.append_nil]
    exact h.once
  | none =>
    rw [Caller.nextTurn_of_no_outlook houtlook, List.map_append]
    -- If the caller were among the turns, there would be an outlook.
    refine List.nodup_append.mpr ⟨h.once, List.pairwise_singleton _ i, fun j hj k hk hjk => ?_⟩
    obtain rfl := List.mem_singleton.mp hk
    obtain ⟨⟨j, ask⟩, hturn, rfl⟩ := List.mem_map.mp hj
    subst hjk
    obtain ⟨seen, answer, hseen, hanswer⟩ := h.exists_outlook hturn
    obtain rfl := Option.some.inj (hcaller.symm.trans hseen)
    rw [houtlook] at hanswer
    cases hanswer

/-- A caller who comes to the guard has in prospect what the turns before demand. -/
theorem Sound.settled_step (h : Sound p) (hcaller : p.callers[i]? = some caller)
    {before after : List (Nat × Ask)} {j : Nat}
    (hturns : p.turns ++ caller.nextTurn i = before ++ (j, ask) :: after) :
    ∃ other, (p.move (.step i)).callers[j]? = some other ∧ other.ask = ask ∧
      other.phase.outlook? = some (ask.answer (claimedIn before)) := by
  cases houtlook : caller.phase.outlook? with
  | some answer =>
    rw [Caller.nextTurn_of_outlook houtlook, List.append_nil] at hturns
    exact h.settled_kept (.step i) hturns
  | none =>
    rw [Caller.nextTurn_of_no_outlook houtlook] at hturns
    -- Either the turn is the new one, and all old turns are before it, or it is an old one.
    rcases List.eq_nil_or_concat after with rfl | ⟨front, last, rfl⟩
    · obtain ⟨rfl, hlast⟩ := List.append_inj' hturns rfl
      cases hlast
      refine ⟨_, callers_step hcaller, Caller.ask_next p.guard caller, ?_⟩
      rw [Caller.outlook?_next, houtlook, h.guard]
      rfl
    · have hold : p.turns ++ [(i, caller.ask)] = before ++ (j, ask) :: front ++ [last] := by
        rw [hturns, List.concat_eq_append, List.append_assoc, List.cons_append]
      exact h.settled_kept (.step i) (List.append_inj' hold rfl).1

theorem sound_step (h : Sound p) (hcaller : p.callers[i]? = some caller) :
    Sound (p.move (.step i)) := by
  have hmove := move_step hcaller
  constructor
  · rw [hmove, Caller.claimed_next p.guard caller i, h.guard]
    exact List.any_append.symm
  · rw [hmove]
    exact h.once_step hcaller
  · intro before j ask after hturns
    rw [hmove] at hturns
    exact h.settled_step hcaller hturns
  · intro j other hother hturn
    rw [hmove] at hturn
    by_cases hij : i = j
    · subst hij
      obtain rfl := Option.some.inj ((callers_step hcaller).symm.trans hother)
      rw [Caller.ask_next] at hturn
      exact absurd (h.mem_turns_step hcaller) hturn
    · rw [hmove, List.getElem?_set_ne hij] at hother
      exact h.turned j other hother fun hmem => hturn (List.mem_append_left _ hmem)

theorem sound_move (h : Sound p) (m : Move) : Sound (p.move m) := by
  cases m with
  | call ask => exact sound_call h ask
  | step i =>
    cases hcaller : p.callers[i]? with
    | none =>
      rw [move, hcaller]
      exact h
    | some caller => exact sound_step h hcaller

/-- **Every answer is in order** whatever the moves are. -/
theorem sound_run (moves : List Move) (h : Sound p) : Sound (p.run moves) := by
  induction moves generalizing p with
  | nil => exact h
  | cons m moves ih => exact ih (sound_move h m)

/-! ## What happens to answers later -/

theorem turns_move (m : Move) : p.turns <+: (p.move m).turns := by
  cases m with
  | call ask => exact List.prefix_refl p.turns
  | step i =>
    rw [move]
    split
    · exact List.prefix_refl p.turns
    · exact List.prefix_append p.turns _

/-- Turns are kept in their order. -/
theorem turns_run (more : List Move) : p.turns <+: (p.run more).turns := by
  induction more generalizing p with
  | nil => exact List.prefix_refl p.turns
  | cons m more ih => exact (turns_move m).trans ih

theorem callers_move_of_answered (m : Move) (h : p.callers[i]? = some ⟨ask, .answered answer⟩) :
    (p.move m).callers[i]? = some ⟨ask, .answered answer⟩ := by
  cases hm : m.isStepOf i with
  | false => exact callers_move_of_ne hm h
  | true =>
    obtain rfl := Move.eq_step_of_isStepOf hm
    exact callers_step h

/-- **An answer once given stays.** -/
theorem run_of_answered (more : List Move) (h : p.callers[i]? = some ⟨ask, .answered answer⟩) :
    (p.run more).callers[i]? = some ⟨ask, .answered answer⟩ := by
  induction more generalizing p with
  | nil => exact h
  | cons m more ih => exact ih (callers_move_of_answered m h)

/-- **Steps bring an answer**, as many as are due, whatever comes between them. -/
theorem answered_of_steps (more : List Move) (h : p.callers[i]? = some caller)
    (hsteps : caller.phase.due ≤ more.countP (Move.isStepOf i)) :
    ∃ answer, (p.run more).callers[i]? = some ⟨caller.ask, .answered answer⟩ := by
  -- What is due of the caller does not exceed the steps that are left.
  induction more generalizing p caller with
  | nil =>
    obtain ⟨ask, phase⟩ := caller
    obtain ⟨answer, rfl⟩ := Phase.answered_of_due (Nat.le_zero.mp hsteps)
    exact ⟨answer, h⟩
  | cons m more ih =>
    cases hm : m.isStepOf i with
    | false =>
      rw [List.countP_cons_of_neg (by rw [hm]; exact Bool.false_ne_true)] at hsteps
      exact ih (callers_move_of_ne hm h) hsteps
    | true =>
      obtain rfl := Move.eq_step_of_isStepOf hm
      rw [List.countP_cons_of_pos hm] at hsteps
      have hdue := Caller.due_next_le p.guard caller
      rw [← Caller.ask_next p.guard caller]
      exact ih (callers_step h) (Nat.le_trans hdue (Nat.sub_le_of_le_add hsteps))

/-- The step of the caller who asked last. -/
theorem move_step_last (guard : LoadGuard) (front : List Caller) (caller : Caller)
    (turns : List (Nat × Ask)) :
    move ⟨guard, front ++ [caller], turns⟩ (.step front.length) =
      ⟨(caller.next guard).2, front ++ [(caller.next guard).1],
        turns ++ caller.nextTurn front.length⟩ := by
  rw [move_step List.getElem?_concat_length, List.set_append_right _ _ (Nat.le_refl _),
    Nat.sub_self]
  rfl

/-- **A load with nothing between its steps** is the load of the guard. -/
theorem run_load_alone (p : Process) (source : Source) :
    p.run [.call (.load source), .step p.callers.length, .step p.callers.length] =
      ⟨(p.guard.load source).2,
        p.callers ++ [⟨.load source, .answered (.content (p.guard.load source).1)⟩],
        p.turns ++ [(p.callers.length, .load source)]⟩ := by
  obtain ⟨⟨claimed⟩, callers, turns⟩ := p
  show move (move ⟨⟨claimed⟩, callers ++ [⟨.load source, .waiting⟩], turns⟩
    (.step callers.length)) (.step callers.length) = _
  rw [move_step_last, move_step_last]
  cases claimed with
  | true => exact congrArg (Process.mk _ _) (List.append_nil _)
  | false => exact congrArg (Process.mk _ _) (List.append_nil _)

/-- Whoever has an answer came to the guard, and has the answer that the turns before demand. -/
theorem Sound.answer_eq (h : Sound p) (hcaller : p.callers[i]? = some ⟨ask, .answered answer⟩) :
    ∃ before after, p.turns = before ++ (i, ask) :: after ∧
      answer = ask.answer (claimedIn before) := by
  have hturn : (i, ask) ∈ p.turns := Classical.byContradiction fun hturn => by
    cases h.turned i _ hcaller hturn
  obtain ⟨before, after, hturns⟩ := List.append_of_mem hturn
  obtain ⟨caller, hsame, -, houtlook⟩ := h.settled before i ask after hturns
  obtain rfl := Option.some.inj (hcaller.symm.trans hsame)
  exact ⟨before, after, hturns, Option.some.inj houtlook⟩

/-- The load happens once, and everybody is answered accordingly. -/
structure Orderly (p : Process) : Prop extends Sound p where
  /-- Whoever has an answer came to the guard, and has the answer that the turns before demand. -/
  answers : ∀ (i : Nat) ask answer, p.callers[i]? = some ⟨ask, .answered answer⟩ →
    ∃ before after, p.turns = before ++ (i, ask) :: after ∧
      answer = ask.answer (claimedIn before)
  /-- No move takes an answer back or changes it. -/
  lasting : ∀ more (i : Nat) ask answer, p.callers[i]? = some ⟨ask, .answered answer⟩ →
    (p.run more).callers[i]? = some ⟨ask, .answered answer⟩
  /-- The order of turns is only continued. -/
  growing : ∀ more, p.turns <+: (p.run more).turns
  /-- Two steps bring an answer, whatever comes between them. -/
  answering : ∀ more (i : Nat) caller, p.callers[i]? = some caller →
    2 ≤ more.countP (Move.isStepOf i) →
    ∃ answer, (p.run more).callers[i]? = some ⟨caller.ask, .answered answer⟩
  /-- A load with nothing between its steps is the load of the guard. -/
  alone : ∀ source,
    p.run [.call (.load source), .step p.callers.length, .step p.callers.length] =
      ⟨(p.guard.load source).2,
        p.callers ++ [⟨.load source, .answered (.content (p.guard.load source).1)⟩],
        p.turns ++ [(p.callers.length, .load source)]⟩

/-- **One load whatever happens**: in every run, the load that is the first at the guard is answered
with the decoding of its source and all others are refused; whether the load has been claimed is
answered by whether a load came to the guard before; and a decoding is answered by its source alone.
No move changes an answer that was given. -/
theorem orderly_run (moves : List Move) : Orderly (start.run moves) where
  toSound := sound_run moves sound_start
  answers _ _ _ := (sound_run moves sound_start).answer_eq
  lasting more _ _ _ := run_of_answered more
  growing := turns_run
  answering more _ caller h hsteps :=
    answered_of_steps more h (Nat.le_trans caller.phase.due_le_two hsteps)
  alone := run_load_alone _

/-- A load without resources fails, and the next one is refused all the same. -/
example (source : Source) :
    (start.run [.call (.load (.memory fun _ => none)), .call (.load source), .call .isClaimed,
        .step 2, .step 0, .step 1, .step 0]).callers.map Caller.phase =
      [.answered (.content (.error (.missing "effects.txt"))),
        .answered (.content (.error .alreadyLoaded)), .answered (.claimed false)] :=
  rfl

end Process

end CardContent.LoadGuard
