import CardContent.Proofs.Content.Resolved
import CardContent.Proofs.Effect.Grammar
import Mathlib

/-!
# The numbers of an effect in the order of its token

The numbers of an effect are those of its leaves, from left to right. They stand in its token in
front of parentheses: each `(` has a number in front of it, or one of the two keywords.

* `heads text` are what stands in front of each `(` of a text, back to the mark before it, white
  space aside, and `numerals text` those of them that are no keywords.
* `compounds parts` is the number of compounds among some effects.
* `Lists text indices n` says that a text has numerals of `indices`, in this order, and as many more
  `(` as `n` says.

Results:
* `heads_eq_headsBehind`: the heads of a text are found in one walk over it.
* `lists_leaf`, `lists_call`, `Lists.padded`, `Lists.append`: what is listed by the texts that
  tokens are made of.
* `lists_of_derives`: a token lists the numbers of its effect.
* `indices_of_ofRow`: the numbers of a card are those of its columns, one column after the other.
* `indices_in_order_of_token`: all of this about what is parsed.
-/

set_option autoImplicit false

namespace CardContent

/-! ## Heads -/

/-- Whether a character is one of those that separate the parts of a token. -/
def isMark (c : Char) : Bool :=
  c == '(' || c == ')' || c == ';'

/-- What stands in front of each `(` of a text, in order: what is between it and the mark before it,
white space aside. -/
def heads (text : List Char) : List (List Char) :=
  (text.inits.filter fun front => front ++ ['('] <+: text).map fun front =>
    Text.trim (front.rtakeWhile fun c => !isMark c)

/-- The heads that are no keywords. -/
def numerals (text : List Char) : List (List Char) :=
  (heads text).filter fun head => head ≠ "AND".toList ∧ head ≠ "OR".toList

/-- The heads of a text, `run` standing in front of it without a mark behind. -/
def headsBehind (run : List Char) : List Char → List (List Char)
  | [] => []
  | c :: rest =>
    if c = '(' then Text.trim run :: headsBehind [] rest
    else headsBehind (if isMark c then [] else run ++ [c]) rest

theorem rtakeWhile_append_singleton (front : List Char) (c : Char) :
    (front ++ [c]).rtakeWhile (fun c => !isMark c) =
      if isMark c then [] else front.rtakeWhile (fun c => !isMark c) ++ [c] := by
  rw [List.rtakeWhile_concat]
  cases isMark c <;> rfl

theorem map_heads_eq_headsBehind (front text : List Char) :
    ((text.inits.filter fun p => p ++ ['('] <+: text).map fun p =>
        Text.trim ((front ++ p).rtakeWhile fun c => !isMark c)) =
      headsBehind (front.rtakeWhile fun c => !isMark c) text := by
  induction text generalizing front with
  | nil => rfl
  | cons c rest ih =>
    have htail : ((rest.inits.map (List.cons c)).filter fun p => p ++ ['('] <+: c :: rest) =
        (rest.inits.filter fun p => p ++ ['('] <+: rest).map (List.cons c) := by
      rw [List.filter_map]
      refine congrArg _ (List.filter_congr fun p _ => ?_)
      simp [List.cons_prefix_cons]
    have hbehind := ih (front ++ [c])
    simp only [List.append_assoc, List.singleton_append] at hbehind
    rw [rtakeWhile_append_singleton] at hbehind
    rw [List.inits_cons, headsBehind, List.filter_cons, htail]
    by_cases hc : c = '('
    · subst hc
      rw [if_pos (by simp), if_pos rfl, List.map_cons, List.append_nil, List.map_map]
      exact congrArg _ hbehind
    · have hfirst : ¬(decide ([] ++ ['('] <+: c :: rest) = true) := by
        simpa using fun heq : '(' = c => hc heq.symm
      rw [if_neg hfirst, if_neg hc, List.map_map]
      exact hbehind

/-- **The heads of a text** are found in one walk over it. -/
theorem heads_eq_headsBehind (text : List Char) : heads text = headsBehind [] text :=
  map_heads_eq_headsBehind [] text

/-! ## Texts one behind the other -/

/-- White space in front of a run is trimmed away. -/
theorem headsBehind_blank_append {before : List Char} (h : Text.Blank before)
    (run text : List Char) : headsBehind (before ++ run) text = headsBehind run text := by
  induction text generalizing run with
  | nil => rfl
  | cons c rest ih =>
    rw [headsBehind, headsBehind, Text.trim_blank_append h]
    cases isMark c with
    | true => rfl
    | false => simp only [Bool.false_eq_true, if_false, List.append_assoc, ih]

theorem headsBehind_plain_append {s : List Char} (h : Plain s) (run t : List Char) :
    headsBehind run (s ++ t) = headsBehind (run ++ s) t := by
  induction s generalizing run with
  | nil => rw [List.nil_append, List.append_nil]
  | cons c rest ih =>
    obtain ⟨⟨hopen, hclose, hsemicolon⟩, hrest⟩ := List.forall_mem_cons.mp h
    have hmark : isMark c = false := by simp [isMark, hopen, hclose, hsemicolon]
    rw [List.cons_append, headsBehind, if_neg hopen, hmark, if_neg Bool.false_ne_true, ih hrest,
      List.append_assoc, List.singleton_append]

theorem headsBehind_of_plain {s : List Char} (h : Plain s) (run : List Char) :
    headsBehind run s = [] := by
  rw [← List.append_nil s, headsBehind_plain_append h]
  rfl

theorem headsBehind_append_plain {t : List Char} (h : Plain t) (run s : List Char) :
    headsBehind run (s ++ t) = headsBehind run s := by
  induction s generalizing run with
  | nil => exact headsBehind_of_plain h run
  | cons c rest ih => rw [List.cons_append, headsBehind, headsBehind, ih, ih]

/-- Behind a mark, a text has its own heads. -/
theorem headsBehind_append_mark {m : Char} (hm : m = ')' ∨ m = ';') (run s t : List Char) :
    headsBehind run (s ++ m :: t) = headsBehind run s ++ headsBehind [] t := by
  induction s generalizing run with
  | nil => rcases hm with rfl | rfl <;> rfl
  | cons c rest ih =>
    rw [List.cons_append, headsBehind, headsBehind, ih, ih]
    split <;> rfl

/-- **A call has its name for a head**, and those of its arguments behind it. -/
theorem heads_write {call : Call} (hname : Plain call.name) :
    heads call.write = Text.trim call.name :: heads call.args := by
  have htail : Plain (if call.optional then ['?'] else []) := by
    cases call.optional <;> decide
  rw [heads_eq_headsBehind, heads_eq_headsBehind, Call.write, List.append_assoc,
    headsBehind_plain_append hname, List.nil_append, List.cons_append, headsBehind, if_pos rfl,
    headsBehind_append_mark (.inl rfl), headsBehind_of_plain htail, List.append_nil]

theorem plain_of_blank {text : List Char} (h : Text.Blank text) : Plain text :=
  fun c hc => Effect.not_mark_of_isBlank (h c hc)

/-- White space around a text makes no difference to its heads. -/
theorem heads_of_padded {core text : List Char} (h : Text.Padded core text) :
    heads text = heads core := by
  obtain ⟨before, behind, hbefore, hbehind, rfl⟩ := h
  have hrun := headsBehind_blank_append hbefore [] core
  rw [List.append_nil] at hrun
  rw [heads_eq_headsBehind, headsBehind_append_plain (plain_of_blank hbehind),
    headsBehind_plain_append (plain_of_blank hbefore), List.nil_append, hrun, heads_eq_headsBehind]

theorem heads_append (s t : List Char) : heads (s ++ ';' :: t) = heads s ++ heads t := by
  rw [heads_eq_headsBehind, headsBehind_append_mark (.inr rfl), ← heads_eq_headsBehind,
    ← heads_eq_headsBehind]

/-! ## Numerals and parentheses -/

/-- The number of compounds among some effects. -/
def compounds (parts : List Effect) : Nat :=
  parts.countP fun part => part.children?.isSome

/-- The text has numerals of these numbers, in this order, and `n` more opening parentheses. -/
structure Lists (text : List Char) (indices : List UInt64) (n : Nat) : Prop where
  numerals : List.Forall₂ (fun numeral index => Numeral.Unsigned numeral (UInt64.toNat index))
    (numerals text) indices
  parentheses : text.count '(' = indices.length + n
  ne_nil : indices ≠ []

theorem count_of_plain {text : List Char} (h : Plain text) : text.count '(' = 0 :=
  List.count_eq_zero.mpr fun hmem => (h '(' hmem).1 rfl

theorem count_write (call : Call) :
    call.write.count '(' = call.name.count '(' + 1 + call.args.count '(' := by
  have htail : (if call.optional then ['?'] else []).count '(' = 0 := by
    cases call.optional <;> rfl
  rw [Call.write, List.append_assoc, List.count_append, List.cons_append, List.count_cons_self,
    List.count_append, List.count_cons_of_ne (by decide), htail]
  omega

/-- No numeral is a keyword. -/
theorem ne_keyword_of_signed {number : List Char} {z : Int} (h : Numeral.Signed number z) :
    number ≠ "AND".toList ∧ number ≠ "OR".toList := by
  have hletter : ∀ c ∈ number, c ≠ 'A' ∧ c ≠ 'O' := by
    refine h.forall_mem (fun c hc => ?_) (by decide) (by decide)
    exact ⟨Text.ne_of_pred hc rfl, Text.ne_of_pred hc rfl⟩
  constructor
  · rintro rfl
    exact (hletter 'A' List.mem_cons_self).1 rfl
  · rintro rfl
    exact (hletter 'O' List.mem_cons_self).2 rfl

/-- The call of a number lists it. -/
theorem lists_leaf {number name param args : List Char} {index : UInt64} {p : Option Int32}
    (hnumber : Numeral.Unsigned number index.toNat) (hname : Text.Padded number name)
    (hparam : ParamText param p) (hargs : Text.Padded param args) (optional : Bool) :
    Lists (Call.write ⟨name, args, optional⟩) [index] 0 := by
  have hplain : Plain name := Effect.plain_of_padded hname (Effect.plain_of_signed hnumber.signed)
  have hargs : Plain args := Effect.plain_of_padded hargs (Effect.plain_of_paramText hparam)
  have hheads : heads (Call.write ⟨name, args, optional⟩) = [number] := by
    rw [heads_write hplain, heads_eq_headsBehind, headsBehind_of_plain hargs,
      Text.trim_of_padded hname hnumber.signed.trimmed]
  constructor
  · have hnumeral := decide_eq_true (ne_keyword_of_signed hnumber.signed)
    rw [numerals, hheads, List.filter_cons, if_pos hnumeral]
    exact .cons hnumber .nil
  · rw [count_write, count_of_plain hplain, count_of_plain hargs]
    rfl
  · exact List.cons_ne_nil _ _

/-- The call of a keyword lists what its arguments list. -/
theorem lists_call {args : List Char} {indices : List UInt64} {n : Nat}
    (h : Lists args indices n) (combinator : Combinator) (optional : Bool) :
    Lists (Call.write ⟨combinator.keyword.toList, args, optional⟩) indices (n + 1) := by
  have hplain := Effect.plain_keyword combinator
  constructor
  · have hkeyword : ¬(decide (Text.trim combinator.keyword.toList ≠ "AND".toList ∧
        Text.trim combinator.keyword.toList ≠ "OR".toList) = true) := by
      cases combinator <;> decide
    rw [numerals, heads_write hplain, List.filter_cons, if_neg hkeyword]
    exact h.numerals
  · rw [count_write, count_of_plain hplain, h.parentheses]
    omega
  · exact h.ne_nil

theorem Lists.padded {core text : List Char} {indices : List UInt64} {n : Nat}
    (h : Lists core indices n) (htext : Text.Padded core text) : Lists text indices n := by
  constructor
  · rw [CardContent.numerals, heads_of_padded htext]
    exact h.numerals
  · obtain ⟨before, behind, hbefore, hbehind, rfl⟩ := htext
    rw [List.count_append, List.count_append, count_of_plain (plain_of_blank hbefore),
      count_of_plain (plain_of_blank hbehind), h.parentheses]
    omega
  · exact h.ne_nil

theorem Lists.append {s t : List Char} {indices indices' : List UInt64} {n n' : Nat}
    (hs : Lists s indices n) (ht : Lists t indices' n') :
    Lists (s ++ ';' :: t) (indices ++ indices') (n + n') := by
  constructor
  · rw [CardContent.numerals, heads_append, List.filter_append]
    exact List.rel_append hs.numerals ht.numerals
  · rw [List.count_append, List.count_cons_of_ne (by decide), hs.parentheses, ht.parentheses,
      List.length_append]
    omega
  · exact fun hnil => hs.ne_nil (List.append_eq_nil_iff.mp hnil).1

/-! ## Tokens -/

namespace Effect

variable {catalog : Catalog}

mutual

/-- **A token lists the numbers of its effect.** By induction on the derivation. -/
theorem lists_of_derives : ∀ {token : List Char} {e : Effect}, Derives catalog token e →
    Lists token e.indices (compounds e.parts)
  | _, _, .simple hnumber hname _ _ _ hparam hargs => lists_leaf hnumber hname hparam hargs _
  | _, _, .compound hparts => by
    rw [parts, compounds, List.countP_cons_of_pos rfl]
    exact lists_call (lists_of_derivesParts hparts) _ _

/-- The arguments of a compound list the numbers of its parts. -/
theorem lists_of_derivesParts : ∀ {text : List Char} {es : List Effect},
    DerivesParts catalog text es → Lists text ((leavesOf es).map (·.index)) (compounds (partsOf es))
  | _, _, .last h htext => by
    rw [leavesOf, leavesOf, partsOf, partsOf, List.append_nil, List.append_nil]
    exact (lists_of_derives h).padded htext
  | _, _, .cons h htext hrest => by
    rw [leavesOf, partsOf, List.map_append, compounds, List.countP_append]
    exact ((lists_of_derives h).padded htext).append (lists_of_derivesParts hrest)

end

end Effect

/-! ## Cards -/

namespace Card

variable {catalog : Catalog}

theorem Joint.indices_eq {es : List Effect} {e : Effect} (h : Joint es e) :
    e.indices = es.flatMap Effect.indices := by
  cases h with
  | one => rw [List.flatMap_singleton]
  | several =>
    show (Effect.leavesOf es).map (·.index) = _
    rw [Effect.leavesOf_eq_flatMap, List.map_flatMap]
    rfl

/-- **The numbers of a card** are those of its columns, one column after the other. -/
theorem indices_of_ofRow {kind : Kind} {place : Option Nat} {row : Csv.Row} {card : Card}
    (h : ofRow kind catalog place row = .ok card) :
    ∃ es, Effect.parseAll catalog (row.drop kind.fixedColumns) = .ok es ∧
      card.effect.indices = es.flatMap Effect.indices := by
  obtain ⟨hkind, leading, columns, hleading, hrow, heffect⟩ := ofRow_eq_ok_iff.mp h
  obtain ⟨es, hes, hjoint⟩ := effectOfColumns_eq_ok_iff.mp heffect
  have hlength : leading.length = kind.fixedColumns := by
    rw [← hkind]
    cases hleading with
    | acquirable hrole => rw [Card.kind, hrole]; rfl
    | defeatable hrole => rw [Card.kind, hrole]; rfl
  refine ⟨es, ?_, hjoint.indices_eq⟩
  rw [hrow, ← hlength, List.drop_left]
  exact hes

end Card

namespace Effect

/-- **The numbers of an effect stand in its token in their order**: they are those of the numerals
in front of the parentheses that have no keyword in front of them, one for each parenthesis that is
not that of a compound; there is one at least, and all are numbers of the catalog. A card has the
numbers of its effect columns, one column after the other. -/
theorem indices_in_order_of_token (catalog : Catalog) :
    (∀ (token : String) (e : Effect), parse catalog token = .ok e →
      List.Forall₂ (fun numeral index => Numeral.Unsigned numeral (UInt64.toNat index))
          (numerals token.toList) e.indices ∧
        e.indices.length + compounds e.parts = token.toList.count '(' ∧ e.indices ≠ [] ∧
        ∀ index ∈ e.indices, 1 ≤ index.toNat ∧ index.toNat < catalog.size) ∧
      ∀ (kind : Kind) (place : Option Nat) (row : Csv.Row) (card : Card),
        Card.ofRow kind catalog place row = .ok card →
          ∃ es, parseAll catalog (row.drop kind.fixedColumns) = .ok es ∧
            card.effect.indices = es.flatMap indices := by
  refine ⟨fun token e h => ?_, fun kind place row card => Card.indices_of_ofRow⟩
  have hderives := derives_of_readChars token.toList h
  have hlists := lists_of_derives hderives
  refine ⟨hlists.numerals, hlists.parentheses.symm, hlists.ne_nil, fun index hindex => ?_⟩
  obtain ⟨leaf, hleaf, rfl⟩ := List.mem_map.mp hindex
  exact (resolved_of_derives hderives).leaves leaf hleaf

/-- Three descriptions. -/
def threeRunes : Catalog :=
  .ofList ["Gain 1 rune.", "Draw a card.", "Gain 1 power."]

/-- An effect with parts in parts. -/
def nested : Effect :=
  .compound .one
    [.compound .all [.simple ⟨3, "Gain 1 power.", some 2, false⟩,
        .simple ⟨2, "Draw a card.", none, true⟩] false,
      .simple ⟨1, "Gain 1 rune.", some (-1), false⟩] true

theorem indices_of_nested :
    let token := "OR(AND(+3(2); 2 ()?);1(-1))?"
    parse threeRunes token = .ok nested ∧ nested.indices = [3, 2, 1] ∧
      numerals token.toList = ["+3".toList, "2".toList, "1".toList] ∧
      List.Forall₂ (fun numeral index => Numeral.Unsigned numeral (UInt64.toNat index))
        (numerals token.toList) nested.indices ∧
      nested.indices.length + compounds nested.parts = token.toList.count '(' ∧
      ∃ card, Card.ofRow .defeatable threeRunes none ["Seer", "2", "Monster", token, "2()"] =
          .ok card ∧ card.effect.indices = [3, 2, 1, 2] := by
  intro token
  obtain ⟨htokens, -⟩ := indices_in_order_of_token threeRunes
  have hparse : parse threeRunes token = .ok nested := by cbv
  obtain ⟨hnumerals, hcount, -, -⟩ := htokens token nested hparse
  have hsecond : parse threeRunes "2()" = .ok (.simple ⟨2, "Draw a card.", none, false⟩) := by cbv
  have hcard : Card.ofRow .defeatable threeRunes none ["Seer", "2", "Monster", token, "2()"] =
      .ok ⟨"Seer", ⟨"2"⟩, "Monster", .defeatable,
        .allOf [nested, .simple ⟨2, "Draw a card.", none, false⟩]⟩ := by
    refine Card.ofRow_eq_ok_iff.mpr ⟨rfl, _, [token, "2()"], .defeatable rfl, rfl, ?_⟩
    exact Card.effectOfColumns_eq_ok_iff.mpr
      ⟨_, mapM_eq_ok_iff.mpr (.cons hparse (.cons hsecond .nil)), .several (Nat.le_refl 2)⟩
  exact ⟨hparse, rfl, by decide +kernel, hnumerals, hcount, _, hcard, rfl⟩

end Effect

end CardContent
