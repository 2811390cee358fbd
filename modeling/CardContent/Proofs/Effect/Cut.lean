import CardContent.Effect.Token
import Mathlib.Data.List.Infix

/-!
# Where the arguments of a compound are cut

`cutAt` counts parentheses without asking whether they match. These are the texts on which that
makes no difference.

* `depthBehind` is the depth behind a text, and `Uncut depth text` says that the text, met at
  `depth`, has no semicolon at depth 0.
* `Level bottom text` says that the text, met at any depth from `bottom` on, is uncut and leaves
  the depth as it was. A text at level 0 is a whole piece wherever it stands; one at level 1 may
  have semicolons of its own and is whole once it is put between parentheses.
* `Matched text` says of the parentheses of a text what a reader would: they match, and no
  semicolon stands outside them. It counts and follows no depth.
* `IsCut text pieces` says which pieces a text is cut into, whether or not its parentheses match.

Results:
* `level_of_matched`: a text whose parentheses match is at level 0, whether or not it is a token.
* `level_write`: a call whose arguments are at level 1 is at level 0.
* `cutAt_of_isCut`: a text has one cut at most, which is the one that `cutAt` makes.
* `cutAt_intercalate`: pieces at level 0 with semicolons between them are cut into these pieces.
* `read_write_of_not_mem`: a call is read back from the text written for it.
-/

set_option autoImplicit false

namespace CardContent

/-- The nesting depth behind a text that is met at `depth`. -/
def depthBehind (depth : Nat) (text : List Char) : Nat :=
  text.foldl depthAfter depth

/-- No semicolon of the text, met at `depth`, stands at depth 0. -/
def Uncut : Nat → List Char → Prop
  | _, [] => True
  | depth, c :: rest => ¬(c = ';' ∧ depth = 0) ∧ Uncut (depthAfter depth c) rest

instance decidableUncut : ∀ (depth : Nat) (text : List Char), Decidable (Uncut depth text)
  | _, [] => isTrue trivial
  | depth, c :: rest =>
    have := decidableUncut (depthAfter depth c) rest
    inferInstanceAs (Decidable (¬(c = ';' ∧ depth = 0) ∧ Uncut (depthAfter depth c) rest))

/-- Met at any depth from `bottom` on, the text is uncut and leaves the depth as it was. -/
def Level (bottom : Nat) (text : List Char) : Prop :=
  ∀ depth, bottom ≤ depth → Uncut depth text ∧ depthBehind depth text = depth

/-- A text without parentheses and semicolons. -/
def Plain (text : List Char) : Prop :=
  ∀ c ∈ text, c ≠ '(' ∧ c ≠ ')' ∧ c ≠ ';'

instance (text : List Char) : Decidable (Plain text) :=
  List.decidableBAll (fun c => c ≠ '(' ∧ c ≠ ')' ∧ c ≠ ';') text

/-! ## Texts one behind the other -/

theorem depthBehind_append (depth : Nat) (s t : List Char) :
    depthBehind depth (s ++ t) = depthBehind (depthBehind depth s) t :=
  List.foldl_append

theorem uncut_append : ∀ (depth : Nat) (s t : List Char),
    Uncut depth (s ++ t) ↔ Uncut depth s ∧ Uncut (depthBehind depth s) t
  | _, [], _ => by simp [Uncut, depthBehind]
  | depth, c :: s, t => by
    rw [List.cons_append, Uncut, Uncut, uncut_append (depthAfter depth c) s t, and_assoc]
    rfl

/-- An uncut text goes in front of the first piece of what follows it. -/
theorem cutAt_append_of_uncut : ∀ {depth : Nat} {text : List Char}, Uncut depth text →
    ∀ rest, cutAt depth (text ++ rest) =
      (cutAt (depthBehind depth text) rest).modifyHead (text ++ ·)
  | depth, [], _, rest => by
    cases h : cutAt depth rest with
    | nil => exact absurd h (cutAt_ne_nil depth rest)
    | cons p ps => simp [depthBehind, h]
  | depth, c :: text, h, rest => by
    rw [List.cons_append, cutAt, if_neg h.1, cutAt_append_of_uncut h.2 rest,
      List.modifyHead_modifyHead]
    rfl

/-! ## Levels -/

theorem Level.nil : Level 0 [] := fun _ _ => ⟨trivial, rfl⟩

theorem Level.mono {bottom bottom' : Nat} {text : List Char} (h : Level bottom text)
    (hle : bottom ≤ bottom') : Level bottom' text :=
  fun depth hd => h depth (Nat.le_trans hle hd)

theorem Level.append {bottom : Nat} {s t : List Char} (hs : Level bottom s)
    (ht : Level bottom t) : Level bottom (s ++ t) := by
  intro depth hd
  obtain ⟨hus, hds⟩ := hs depth hd
  obtain ⟨hut, hdt⟩ := ht depth hd
  refine ⟨(uncut_append depth s t).mpr ⟨hus, ?_⟩, ?_⟩
  · rw [hds]; exact hut
  · rw [depthBehind_append, hds, hdt]

theorem level_of_plain : ∀ {text : List Char}, Plain text → Level 0 text
  | [], _ => Level.nil
  | c :: text, h => by
    intro depth hd
    obtain ⟨hopen, hclose, hsemi⟩ := h c List.mem_cons_self
    have hc : depthAfter depth c = depth := by
      unfold depthAfter
      rw [if_neg hopen, if_neg hclose]
    obtain ⟨hu, hb⟩ :=
      level_of_plain (fun x hx => h x (List.mem_cons_of_mem c hx)) depth hd
    refine ⟨⟨fun hs => hsemi hs.1, ?_⟩, ?_⟩
    · rw [hc]; exact hu
    · show depthBehind (depthAfter depth c) text = depth
      rw [hc, hb]

/-- A semicolon is at level 1: at depth 0 it is where the text is cut. -/
theorem level_semicolon : Level 1 [';'] := by
  intro depth hd
  refine ⟨⟨fun hs => ?_, trivial⟩, rfl⟩
  omega

/-- **Parentheses close a text that is at level 1.** -/
theorem level_enclosed {args : List Char} (h : Level 1 args) :
    Level 0 ('(' :: args ++ [')']) := by
  intro depth _
  obtain ⟨hu, hb⟩ := h (depth + 1) (Nat.le_add_left 1 depth)
  have hbehind : depthBehind depth ('(' :: args) = depth + 1 := hb
  constructor
  · rw [uncut_append, hbehind]
    refine ⟨⟨fun hs => absurd hs.1 (by decide), hu⟩, fun hs => absurd hs.1 (by decide), trivial⟩
  · rw [depthBehind_append, hbehind]
    rfl

/-- **A call is a whole piece** if its name is plain and its arguments are at level 1. -/
theorem Call.level_write {call : Call} (hname : Plain call.name) (hargs : Level 1 call.args) :
    Level 0 call.write := by
  have hmark : Level 0 (if call.optional then ['?'] else []) := by
    split
    · exact level_of_plain fun c hc => by rw [List.mem_singleton.mp hc]; decide
    · exact Level.nil
  have heq : call.write =
      call.name ++ ('(' :: call.args ++ [')']) ++ if call.optional then ['?'] else [] := by
    simp [write]
  rw [heq]
  exact ((level_of_plain hname).append (level_enclosed hargs)).append hmark

theorem level_intercalate : ∀ {pieces : List (List Char)}, (∀ p ∈ pieces, Level 0 p) →
    Level 1 ([';'].intercalate pieces)
  | [], _ => Level.nil.mono (Nat.zero_le 1)
  | [p], h => by
    rw [List.intercalate_singleton]
    exact (h p List.mem_cons_self).mono (Nat.zero_le 1)
  | p :: q :: ps, h => by
    rw [List.intercalate_cons_cons]
    have hp : Level 1 p := (h p List.mem_cons_self).mono (Nat.zero_le 1)
    have hps : Level 1 ([';'].intercalate (q :: ps)) :=
      level_intercalate fun r hr => h r (List.mem_cons_of_mem p hr)
    exact (hp.append level_semicolon).append hps

/-! ## Matching parentheses -/

/-- The parentheses of a text match, and no semicolon stands outside them. -/
structure Matched (text : List Char) : Prop where
  /-- No beginning of the text closes more than it opened. -/
  opened : ∀ front, front <+: text → front.count ')' ≤ front.count '('
  /-- The text closes what it opened. -/
  closed : text.count ')' = text.count '('
  /-- In front of a semicolon something is still open. -/
  enclosed : ∀ front, front ++ [';'] <+: text → front.count ')' < front.count '('

instance (text : List Char) : Decidable (Matched text) :=
  decidable_of_iff ((∀ front ∈ text.inits, front.count ')' ≤ front.count '(') ∧
      text.count ')' = text.count '(' ∧
      ∀ front ∈ text.inits, front ++ [';'] <+: text → front.count ')' < front.count '(') <| by
    constructor
    · rintro ⟨hopened, hclosed, henclosed⟩
      exact ⟨fun front h => hopened front ((List.mem_inits _ _).mpr h), hclosed, fun front h =>
        henclosed front ((List.mem_inits _ _).mpr ((List.prefix_append front [';']).trans h)) h⟩
    · rintro ⟨hopened, hclosed, henclosed⟩
      exact ⟨fun front h => hopened front ((List.mem_inits _ _).mp h), hclosed,
        fun front _ => henclosed front⟩

/-- Where no beginning of a text closes more than was open, the depth does not stop at 0: it is what
the counts say. By induction on the text, with the depth at which it is met. -/
theorem uncut_of_counts : ∀ {depth : Nat} {text : List Char},
    (∀ front, front <+: text → front.count ')' ≤ depth + front.count '(') →
    (∀ front, front ++ [';'] <+: text → front.count ')' < depth + front.count '(') →
    Uncut depth text ∧ depthBehind depth text + text.count ')' = depth + text.count '('
  | _, [], _, _ => ⟨trivial, rfl⟩
  | depth, c :: rest, hopened, henclosed => by
    have hopen := hopened [c] ⟨rest, rfl⟩
    have hafter : depthAfter depth c + [c].count ')' = depth + [c].count '(' := by
      unfold depthAfter
      by_cases hl : c = '('
      · subst hl; rfl
      by_cases hr : c = ')'
      · subst hr
        simp at hopen ⊢
        omega
      · simp [hl, hr]
    have hcons : ∀ (front : List Char) (x : Char),
        (c :: front).count x = [c].count x + front.count x := by
      intro front x
      rw [← List.singleton_append, List.count_append]
    have hopened' : ∀ front, front <+: rest →
        front.count ')' ≤ depthAfter depth c + front.count '(' := by
      intro front h
      have := hopened (c :: front) ((List.prefix_cons_inj c).mpr h)
      rw [hcons front, hcons front] at this
      omega
    have henclosed' : ∀ front, front ++ [';'] <+: rest →
        front.count ')' < depthAfter depth c + front.count '(' := by
      intro front h
      have := henclosed (c :: front) ((List.prefix_cons_inj c).mpr h)
      rw [hcons front, hcons front] at this
      omega
    obtain ⟨huncut, hbehind⟩ := uncut_of_counts hopened' henclosed'
    refine ⟨⟨?_, huncut⟩, ?_⟩
    · rintro ⟨rfl, rfl⟩
      exact absurd (henclosed [] ⟨rest, rfl⟩) (Nat.lt_irrefl 0)
    · show depthBehind (depthAfter depth c) rest + _ = _
      rw [hcons rest, hcons rest]
      omega

/-- **A text whose parentheses match is a whole piece**, be it a token or not. -/
theorem level_of_matched {text : List Char} (h : Matched text) : Level 0 text := by
  intro depth _
  have hopened : ∀ front, front <+: text → front.count ')' ≤ depth + front.count '(' :=
    fun front hfront => Nat.le_trans (h.opened front hfront) (Nat.le_add_left _ depth)
  have henclosed : ∀ front, front ++ [';'] <+: text → front.count ')' < depth + front.count '(' :=
    fun front hfront => Nat.lt_of_lt_of_le (h.enclosed front hfront) (Nat.le_add_left _ depth)
  obtain ⟨huncut, hbehind⟩ := uncut_of_counts hopened henclosed
  refine ⟨huncut, ?_⟩
  rw [h.closed] at hbehind
  exact Nat.add_right_cancel hbehind

/-! ## Cuts -/

/-- The pieces that a text is cut into at the semicolons met at depth 0, each piece being scanned
from depth 0. The parentheses of a piece need not match. -/
structure IsCut (text : List Char) (pieces : List (List Char)) : Prop where
  /-- There is a piece, be it the empty one. -/
  nonempty : pieces ≠ []
  /-- The pieces with semicolons between them are the text. -/
  joined : [';'].intercalate pieces = text
  /-- No semicolon inside a piece is met at depth 0. -/
  uncut : ∀ piece ∈ pieces, Uncut 0 piece
  /-- Every piece but the last ends at depth 0. -/
  ended : ∀ piece ∈ pieces.dropLast, depthBehind 0 piece = 0

instance (text : List Char) (pieces : List (List Char)) : Decidable (IsCut text pieces) :=
  decidable_of_iff (pieces ≠ [] ∧ [';'].intercalate pieces = text ∧
      (∀ piece ∈ pieces, Uncut 0 piece) ∧ ∀ piece ∈ pieces.dropLast, depthBehind 0 piece = 0)
    ⟨fun h => ⟨h.1, h.2.1, h.2.2.1, h.2.2.2⟩, fun h => ⟨h.1, h.2, h.3, h.4⟩⟩

theorem cutAt_of_uncut {depth : Nat} {text : List Char} (h : Uncut depth text) :
    cutAt depth text = [text] := by
  have := cutAt_append_of_uncut h []
  rw [List.append_nil] at this
  rw [this]
  simp [cutAt]

/-- An uncut text that ends at depth 0 and has a semicolon behind it is the first piece. -/
theorem cutAt_append_semicolon {depth : Nat} {text : List Char} (h : Uncut depth text)
    (hend : depthBehind depth text = 0) (rest : List Char) :
    cutAt depth (text ++ ';' :: rest) = text :: cutAt 0 rest := by
  rw [cutAt_append_of_uncut h, hend, cutAt, if_pos ⟨rfl, rfl⟩, List.modifyHead_cons,
    List.append_nil]

/-- **There is one cut at most**: its pieces are the ones that the text is cut into. By induction on
the pieces, each of which comes to an end where the depth is 0 again. -/
theorem cutAt_of_isCut : ∀ {pieces : List (List Char)} {text : List Char}, IsCut text pieces →
    cutAt 0 text = pieces
  | [], _, h => absurd rfl h.nonempty
  | [piece], _, h => by
    rw [← h.joined, List.intercalate_singleton, cutAt_of_uncut (h.uncut piece List.mem_cons_self)]
  | piece :: next :: rest, _, h => by
    obtain ⟨huncut, huncuts⟩ := List.forall_mem_cons.mp h.uncut
    obtain ⟨hend, hends⟩ := List.forall_mem_cons.mp h.ended
    have hrest : IsCut ([';'].intercalate (next :: rest)) (next :: rest) :=
      ⟨List.cons_ne_nil next rest, rfl, huncuts, hends⟩
    rw [← h.joined, List.intercalate_cons_cons, List.append_assoc, List.singleton_append,
      cutAt_append_semicolon huncut hend, cutAt_of_isCut hrest]

/-! ## Pieces at level 0 -/

theorem Level.uncut {text : List Char} (h : Level 0 text) : Uncut 0 text :=
  (h 0 (Nat.le_refl 0)).1

theorem Level.ended {text : List Char} (h : Level 0 text) : depthBehind 0 text = 0 :=
  (h 0 (Nat.le_refl 0)).2

theorem isCut_intercalate {pieces : List (List Char)} (hne : pieces ≠ [])
    (h : ∀ p ∈ pieces, Level 0 p) : IsCut ([';'].intercalate pieces) pieces where
  nonempty := hne
  joined := rfl
  uncut p hp := (h p hp).uncut
  ended p hp := (h p (List.mem_of_mem_dropLast hp)).ended

/-- **Cutting undoes joining** for pieces at level 0. -/
theorem cutAt_intercalate {pieces : List (List Char)} (hne : pieces ≠ [])
    (h : ∀ p ∈ pieces, Level 0 p) : cutAt 0 ([';'].intercalate pieces) = pieces :=
  cutAt_of_isCut (isCut_intercalate hne h)

/-! ## Calls -/

theorem Call.head?_write (call : Call) :
    call.write.head? = some (call.name.head?.getD '(') := by
  cases hname : call.name <;> simp [write, hname]

theorem Call.last_write (call : Call) :
    call.write.getLast? = some (if call.optional then '?' else ')') := by
  obtain ⟨name, args, optional⟩ := call
  cases optional <;> simp [write, List.getLast?_append, List.getLast?_cons]

/-- A written call ends in `?` exactly if it is optional. -/
theorem Call.getLast?_write (call : Call) :
    (call.write.getLast? == some '?') = call.optional := by
  rw [last_write]
  cases call.optional <;> rfl

/-- What is left of a written call without its mark. -/
theorem Call.body_write (call : Call) :
    (if call.optional = true then call.write.dropLast else call.write) =
      call.name ++ '(' :: (call.args ++ [')']) := by
  obtain ⟨name, args, optional⟩ := call
  cases optional with
  | true =>
    have hw : write ⟨name, args, true⟩ = (name ++ '(' :: (args ++ [')'])) ++ ['?'] := by
      simp [write]
    rw [if_pos rfl, hw, List.dropLast_concat]
  | false => simp [write]

/-- **A call reads back**: the first `(` is the one behind the name, whatever the arguments. -/
theorem Call.read_write_of_not_mem {call : Call} (hname : '(' ∉ call.name) :
    read call.write = some call := by
  have hopen : ∀ c ∈ call.name, (c != '(') = true :=
    fun c hc => bne_iff_ne.mpr fun heq => hname (heq ▸ hc)
  have hstop : (call.name ++ '(' :: (call.args ++ [')'])).dropWhile (· != '(') =
      '(' :: (call.args ++ [')']) := by
    rw [List.dropWhile_append_of_pos hopen]
    rfl
  have htake : (call.name ++ '(' :: (call.args ++ [')'])).takeWhile (· != '(') = call.name := by
    rw [List.takeWhile_append_of_pos hopen]
    simp
  unfold read
  simp only [getLast?_write, body_write, hstop, htake, List.getLast?_concat, if_true,
    List.dropLast_concat]

theorem Call.read_write {call : Call} (hname : Plain call.name) : read call.write = some call :=
  read_write_of_not_mem fun hmem => (hname _ hmem).1 rfl

end CardContent
