import CardContent.Effect.Parser
import CardContent.Proofs.Effect.Cut
import CardContent.Proofs.Outcome
import CardContent.Proofs.Text.Numeral

/-!
# The grammar of effect tokens

The reader takes the first `(` and the last `)` of a token, cuts what stands between them by
counting parentheses, and never asks whether these match. What it accepts is nevertheless given by
a grammar, in which white space is allowed around numbers, parameters and parts:

```text
effect := NUMBER "(" PARAM? ")" "?"?  |  ("AND" | "OR") "(" effect (";" effect)* ")" "?"?
```

`Derives catalog token e` is that grammar: the token is an effect with the tree `e`. A number is
one of the catalog, and the leaf has the description with that number.

Results:
* `derives_of_readChars`: what is read derives from the grammar. Every cut is undone by a
  semicolon, so nothing has to be known about the parentheses of the pieces.
* `readChars_of_derives`: what derives is read. A token is at level 0, so its parts are cut apart
  where the grammar joins them.
* `parse_eq_ok_iff_derives`: both together.
-/

set_option autoImplicit false

namespace CardContent

/-! ## The grammar -/

/-- The parameter of a leaf: none, or a signed numeral. -/
inductive ParamText : List Char → Option Int32 → Prop where
  | none : ParamText [] none
  | some {text : List Char} {p : Int32} (h : Numeral.Signed text p.toInt) :
      ParamText text (some p)

mutual

/-- The token is an effect with this tree. -/
inductive Derives (catalog : Catalog) : List Char → Effect → Prop where
  /-- A number of the catalog, and in parentheses a parameter or none. -/
  | simple {number name param args : List Char} {leaf : Leaf}
      (hnumber : Numeral.Unsigned number leaf.index.toNat) (hname : Text.Padded number name)
      (hlow : 1 ≤ leaf.index.toNat) (hhigh : leaf.index.toNat < catalog.size)
      (hdescription : catalog.descriptions[leaf.index.toNat]? = some leaf.description)
      (hparam : ParamText param leaf.param) (hargs : Text.Padded param args) :
      Derives catalog (Call.write ⟨name, args, leaf.optional⟩) (.simple leaf)
  /-- A keyword, and in parentheses the parts. -/
  | compound {combinator : Combinator} {args : List Char} {children : List Effect}
      {optional : Bool} (hparts : DerivesParts catalog args children) :
      Derives catalog (Call.write ⟨combinator.keyword.toList, args, optional⟩)
        (.compound combinator children optional)

/-- The text is one or more effects with these trees, with semicolons between them. -/
inductive DerivesParts (catalog : Catalog) : List Char → List Effect → Prop where
  | last {token text : List Char} {e : Effect} (h : Derives catalog token e)
      (htext : Text.Padded token text) : DerivesParts catalog text [e]
  | cons {token text rest : List Char} {e : Effect} {es : List Effect}
      (h : Derives catalog token e) (htext : Text.Padded token text)
      (hrest : DerivesParts catalog rest es) :
      DerivesParts catalog (text ++ ';' :: rest) (e :: es)

end

/-! ## Leaves -/

namespace Effect

variable {catalog : Catalog}

theorem paramText_nil_iff {param : Option Int32} : ParamText [] param ↔ param = none := by
  constructor
  · intro h
    cases h with
    | none => rfl
    | some h => exact absurd rfl h.ne_nil
  · rintro rfl
    exact .none

theorem paramText_iff_int32? {text : List Char} {param : Option Int32} (hne : text ≠ []) :
    ParamText text param ↔ ∃ p, Numeral.int32? text = some p ∧ param = some p := by
  constructor
  · intro h
    cases h with
    | none => exact absurd rfl hne
    | some h => exact ⟨_, Numeral.int32?_eq_some_iff.mpr h, rfl⟩
  · rintro ⟨p, hp, rfl⟩
    exact .some (Numeral.int32?_eq_some_iff.mp hp)

theorem readParam_eq_ok_iff {token args : List Char} {param : Option Int32} :
    readParam token args = .ok param ↔ ParamText (Text.trim args) param := by
  unfold readParam
  simp only
  by_cases hempty : Text.trim args = []
  · rw [hempty, paramText_nil_iff]
    constructor <;> intro h <;> cases h <;> rfl
  · rw [if_neg (mt List.isEmpty_iff.mp hempty), paramText_iff_int32? hempty]
    cases Numeral.int32? (Text.trim args) with
    | none =>
      constructor
      · intro h; cases h
      · rintro ⟨p, hp, -⟩; cases hp
    | some p =>
      constructor
      · intro h; cases h; exact ⟨p, rfl, rfl⟩
      · rintro ⟨q, hq, rfl⟩; cases hq; rfl

/-- **A token is read as a leaf** exactly if it is a call of a number of the catalog with a
parameter or none, white space aside. -/
theorem readLeaf_eq_ok_iff {token : List Char} {leaf : Leaf} :
    readLeaf catalog token = .ok leaf ↔
      ∃ call, Call.read token = some call ∧
        Numeral.Unsigned (Text.trim call.name) leaf.index.toNat ∧
        catalog.get? leaf.index = some leaf.description ∧
        ParamText (Text.trim call.args) leaf.param ∧ call.optional = leaf.optional := by
  unfold readLeaf
  rw [bind_eq_ok_iff]
  refine exists_congr fun call => ?_
  rw [Call.parse_eq_ok_iff]
  refine and_congr Iff.rfl ?_
  constructor
  · intro h
    split at h
    · cases h
    · rename_i index hindex
      obtain ⟨param, hparam, h⟩ := bind_eq_ok_iff.mp h
      split at h
      · cases h
      · rename_i description hdescription
        cases h
        exact ⟨Numeral.uint64?_eq_some_iff.mp hindex, hdescription,
          readParam_eq_ok_iff.mp hparam, rfl⟩
  · rintro ⟨hnumber, hdescription, hparam, hoptional⟩
    rw [Numeral.uint64?_eq_some_iff.mpr hnumber]
    refine bind_eq_ok_iff.mpr ⟨leaf.param, readParam_eq_ok_iff.mpr hparam, ?_⟩
    simp only [hdescription, hoptional]

/-! ## What is read derives -/

/-- The pieces between semicolons derive together if each does by itself. -/
theorem derivesParts_intercalate : ∀ {pieces : List (List Char)} {es : List Effect},
    pieces ≠ [] → List.Forall₂ (fun piece e => Derives catalog (Text.trim piece) e) pieces es →
      DerivesParts catalog ([';'].intercalate pieces) es
  | [], _, hne, _ => absurd rfl hne
  | [piece], _, _, .cons h .nil => by
    rw [List.intercalate_singleton]
    exact .last h (Text.padded_trim piece)
  | piece :: q :: ps, _, _, .cons h hs => by
    rw [List.intercalate_cons_cons, List.append_assoc, List.singleton_append]
    exact .cons h (Text.padded_trim piece) (derivesParts_intercalate (List.cons_ne_nil q ps) hs)

theorem derives_of_readLeaf {token : List Char} {leaf : Leaf}
    (h : readLeaf catalog token = .ok leaf) : Derives catalog token (.simple leaf) := by
  obtain ⟨⟨name, args, optional⟩, hread, hnumber, hdescription, hparam, hoptional⟩ :=
    readLeaf_eq_ok_iff.mp h
  obtain ⟨hlow, hhigh, hdescription⟩ := Catalog.get?_eq_some_iff.mp hdescription
  rw [Call.eq_write_of_read hread]
  obtain rfl : optional = leaf.optional := hoptional
  exact .simple hnumber (Text.padded_trim _) hlow hhigh hdescription hparam (Text.padded_trim _)

/-- **What is read derives from the grammar.** By induction on the length of the token: the parts
of a compound are shorter. -/
theorem derives_of_readChars (token : List Char) {e : Effect}
    (h : readChars catalog token = .ok e) : Derives catalog token e := by
  rw [readChars_eq] at h
  split at h
  · obtain ⟨⟨name, args, optional⟩, hcall, h⟩ := bind_eq_ok_iff.mp h
    have hread := Call.parse_eq_ok_iff.mp hcall
    split at h
    · cases h
    · rename_i combinator hkeyword
      obtain ⟨children, hchildren, h⟩ := bind_eq_ok_iff.mp h
      cases h
      obtain rfl : name = combinator.keyword.toList := by
        rw [← Combinator.ofKeyword?_eq_some_iff.mp hkeyword, String.toList_ofList]
      have hshort : ∀ piece ∈ splitChildren args, ∀ child,
          readChars catalog piece = .ok child → Derives catalog piece child :=
        fun piece hp child hc =>
          have : piece.length < token.length := Nat.lt_of_le_of_lt
            (length_le_of_mem_splitChildren hp) (Call.length_args_lt_of_read hread)
          derives_of_readChars piece hc
      have hpieces : List.Forall₂ (fun piece child => Derives catalog piece child)
          (splitChildren args) children :=
        ((List.forall₂_and_left _ _).mpr ⟨hshort, mapM_eq_ok_iff.mp hchildren⟩).imp
          fun _ _ hpc => hpc.1 _ hpc.2
      rw [splitChildren, List.forall₂_map_left_iff] at hpieces
      have hparts := derivesParts_intercalate (cutAt_ne_nil 0 args) hpieces
      rw [intercalate_cutAt] at hparts
      rw [Call.eq_write_of_read hread]
      exact .compound hparts
  · obtain ⟨leaf, hleaf, h⟩ := bind_eq_ok_iff.mp h
    cases h
    exact derives_of_readLeaf hleaf
termination_by token.length

/-! ## What derives is read -/

theorem not_mark_of_isBlank {c : Char} (h : Text.isBlank c = true) :
    c ≠ '(' ∧ c ≠ ')' ∧ c ≠ ';' :=
  ⟨Text.ne_of_pred h rfl, Text.ne_of_pred h rfl, Text.ne_of_pred h rfl⟩

theorem plain_of_signed {text : List Char} {z : Int} (h : Numeral.Signed text z) : Plain text :=
  h.forall_mem
    (fun _ hc => ⟨Text.ne_of_pred hc rfl, Text.ne_of_pred hc rfl, Text.ne_of_pred hc rfl⟩)
    (by decide) (by decide)

theorem plain_of_paramText {text : List Char} {p : Option Int32} (h : ParamText text p) :
    Plain text := by
  cases h with
  | none => exact fun c hc => absurd hc List.not_mem_nil
  | some h => exact plain_of_signed h

theorem plain_of_padded {core text : List Char} (h : Text.Padded core text)
    (hcore : Plain core) : Plain text :=
  h.forall_mem (fun _ => not_mark_of_isBlank) hcore

theorem plain_keyword (combinator : Combinator) : Plain combinator.keyword.toList := by
  cases combinator <;> decide

theorem level_of_padded {core text : List Char} (h : Text.Padded core text)
    (hcore : Level 0 core) : Level 0 text := by
  obtain ⟨before, behind, hb, he, rfl⟩ := h
  have hbefore : Level 0 before := level_of_plain fun c hc => not_mark_of_isBlank (hb c hc)
  have hbehind : Level 0 behind := level_of_plain fun c hc => not_mark_of_isBlank (he c hc)
  exact (hbefore.append hcore).append hbehind

/-! ### Levels -/

mutual

/-- **A token is a whole piece** of whatever it stands in. -/
theorem level_of_derives : ∀ {token : List Char} {e : Effect}, Derives catalog token e →
    Level 0 token
  | _, _, .simple hnumber hname _ _ _ hparam hargs => by
    have hargs' := level_of_padded hargs (level_of_plain (plain_of_paramText hparam))
    exact Call.level_write (plain_of_padded hname (plain_of_signed hnumber.signed))
      (hargs'.mono (Nat.zero_le 1))
  | _, _, .compound hparts =>
    Call.level_write (plain_keyword _) (level_of_derivesParts hparts)

/-- The arguments of a compound may have semicolons between the parts. -/
theorem level_of_derivesParts : ∀ {text : List Char} {es : List Effect},
    DerivesParts catalog text es → Level 1 text
  | _, _, .last h htext => (level_of_padded htext (level_of_derives h)).mono (Nat.zero_le 1)
  | _, _, .cons h htext hrest => by
    have hone := (level_of_padded htext (level_of_derives h)).mono (Nat.zero_le 1)
    exact hone.append (level_semicolon.append (level_of_derivesParts hrest))

end

/-! ### Calls -/

theorem opensCompound_keyword (combinator : Combinator) (args : List Char) (optional : Bool) :
    opensCompound (Call.write ⟨combinator.keyword.toList, args, optional⟩) = true := by
  cases combinator <;> rfl

/-- A compound begins with the first letter of a keyword. -/
theorem head?_of_opensCompound {token : List Char} (h : opensCompound token = true) :
    token.head? = some 'A' ∨ token.head? = some 'O' := by
  simp only [opensCompound, Bool.or_eq_true, List.isPrefixOf_iff_prefix] at h
  rcases h with ⟨rest, rfl⟩ | ⟨rest, rfl⟩
  · exact Or.inl rfl
  · exact Or.inr rfl

/-- The call of a number is not taken for a compound. -/
theorem opensCompound_number {call : Call} {number : List Char} {z : Int}
    (hname : Text.Padded number call.name) (hnumber : Numeral.Signed number z) :
    opensCompound call.write = false := by
  have hletter : ∀ c ∈ call.name, c ≠ 'A' ∧ c ≠ 'O' := by
    refine hname.forall_mem (fun c hc => ?_) (hnumber.forall_mem (fun c hc => ?_) ?_ ?_)
    · exact ⟨Text.ne_of_pred hc rfl, Text.ne_of_pred hc rfl⟩
    · exact ⟨Text.ne_of_pred hc rfl, Text.ne_of_pred hc rfl⟩
    · decide
    · decide
  have hhead : ∀ c ∈ call.write.head?, c ≠ 'A' ∧ c ≠ 'O' := by
    intro c hc
    rw [Call.head?_write, Option.mem_some_iff] at hc
    subst hc
    cases h : call.name.head? with
    | none => exact ⟨by decide, by decide⟩
    | some x => exact hletter x (List.mem_of_mem_head? h)
  rw [← Bool.not_eq_true]
  intro h
  rcases head?_of_opensCompound h with h | h
  · exact (hhead 'A' h).1 rfl
  · exact (hhead 'O' h).2 rfl

/-- **The call of a keyword is read part by part**, whatever its arguments. -/
theorem readChars_keyword (combinator : Combinator) (args : List Char) (optional : Bool) :
    readChars catalog (Call.write ⟨combinator.keyword.toList, args, optional⟩) =
      ((splitChildren args).mapM (readChars catalog) >>= fun children =>
        .ok (.compound combinator children optional)) := by
  have hread : Call.read (Call.write ⟨combinator.keyword.toList, args, optional⟩) =
      some ⟨combinator.keyword.toList, args, optional⟩ :=
    Call.read_write (plain_keyword combinator)
  have hkeyword : Combinator.ofKeyword? combinator.keyword = some combinator :=
    Combinator.ofKeyword?_eq_some_iff.mpr rfl
  rw [readChars_eq, if_pos (opensCompound_keyword combinator args optional),
    Call.parse_eq_ok_iff.mpr hread]
  simp only [bind, Except.bind, String.ofList_toList, hkeyword]
  rfl

/-- **The call of a number is read as a leaf.** -/
theorem readChars_number {call : Call} {number : List Char} {z : Int}
    (hname : Text.Padded number call.name) (hnumber : Numeral.Signed number z) :
    readChars catalog call.write =
      (readLeaf catalog call.write >>= fun leaf => .ok (.simple leaf)) := by
  rw [readChars_eq, opensCompound_number hname hnumber]
  rfl

theorem paramText_trimmed {text : List Char} {p : Option Int32} (h : ParamText text p) :
    Text.Trimmed text := by
  cases h with
  | none => exact Text.trimmed_nil
  | some h => exact h.trimmed

theorem readChars_simple {number name param args : List Char} {leaf : Leaf}
    (hnumber : Numeral.Unsigned number leaf.index.toNat) (hname : Text.Padded number name)
    (hdescription : catalog.get? leaf.index = some leaf.description)
    (hparam : ParamText param leaf.param) (hargs : Text.Padded param args) :
    readChars catalog (Call.write ⟨name, args, leaf.optional⟩) = .ok (.simple leaf) := by
  rw [readChars_number hname hnumber.signed]
  refine bind_eq_ok_iff.mpr ⟨leaf, readLeaf_eq_ok_iff.mpr ⟨⟨name, args, leaf.optional⟩, ?_⟩, rfl⟩
  refine ⟨Call.read_write (plain_of_padded hname (plain_of_signed hnumber.signed)), ?_,
    hdescription, ?_, rfl⟩
  · show Numeral.Unsigned (Text.trim name) _
    rw [Text.trim_of_padded hname hnumber.signed.trimmed]
    exact hnumber
  · show ParamText (Text.trim args) _
    rw [Text.trim_of_padded hargs (paramText_trimmed hparam)]
    exact hparam

/-! ### Trimmed tokens -/

/-- A call has no white space behind it, and none in front if its name has none. -/
theorem trimmed_write {call : Call} (h : ∀ c ∈ call.name.head?, Text.isBlank c = false) :
    Text.Trimmed call.write := by
  constructor
  · intro c hc
    rw [Call.head?_write, Option.mem_some_iff] at hc
    subst hc
    cases hname : call.name.head? with
    | none => decide
    | some x => exact h x hname
  · intro c hc
    rw [Call.last_write, Option.mem_some_iff] at hc
    subst hc
    cases call.optional <;> decide

theorem trimmed_keyword (combinator : Combinator) (args : List Char) (optional : Bool) :
    Text.Trimmed (Call.write ⟨combinator.keyword.toList, args, optional⟩) := by
  refine trimmed_write fun c hc => ?_
  cases combinator with
  | all =>
    obtain rfl : 'A' = c := Option.some.inj hc
    rfl
  | one =>
    obtain rfl : 'O' = c := Option.some.inj hc
    rfl

/-- A part may lose the white space in front of its number. -/
theorem readChars_trim {token : List Char} {e : Effect} (h : Derives catalog token e) :
    readChars catalog (Text.trim token) = readChars catalog token := by
  cases h with
  | compound _ => rw [Text.trim_of_trimmed (trimmed_keyword _ _ _)]
  | @simple number name param args leaf hnumber hname hlow hhigh hdescription hparam hargs =>
    have hget := Catalog.get?_eq_some_iff.mpr ⟨hlow, hhigh, hdescription⟩
    obtain ⟨before, behind, hb, he, rfl⟩ := id hname
    have hname' : Text.Padded number (number ++ behind) := ⟨[], behind, Text.blank_nil, he, rfl⟩
    have htrim : Text.trim (Call.write ⟨before ++ number ++ behind, args, leaf.optional⟩) =
        Call.write ⟨number ++ behind, args, leaf.optional⟩ := by
      apply Text.trim_of_padded ⟨before, [], hb, Text.blank_nil, by simp [Call.write]⟩
      apply trimmed_write
      intro c hc
      obtain ⟨x, xs, rfl⟩ := List.exists_cons_of_ne_nil hnumber.signed.ne_nil
      exact hnumber.signed.not_blank c (List.mem_of_mem_head? hc)
    rw [htrim, readChars_simple hnumber hname hget hparam hargs,
      readChars_simple hnumber hname' hget hparam hargs]

/-! ### Completeness -/

mutual

/-- **What derives from the grammar is read.** -/
theorem readChars_of_derives : ∀ {token : List Char} {e : Effect}, Derives catalog token e →
    readChars catalog token = .ok e
  | _, _, .simple hnumber hname hlow hhigh hdescription hparam hargs =>
    readChars_simple hnumber hname (Catalog.get?_eq_some_iff.mpr ⟨hlow, hhigh, hdescription⟩)
      hparam hargs
  | _, _, .compound hparts => by
    rw [readChars_keyword]
    exact bind_eq_ok_iff.mpr ⟨_, mapM_of_derivesParts hparts, rfl⟩

/-- The parts that derive are the parts that the text is cut into. -/
theorem mapM_of_derivesParts : ∀ {text : List Char} {es : List Effect},
    DerivesParts catalog text es → (splitChildren text).mapM (readChars catalog) = .ok es
  | _, _, .last h htext => by
    rw [splitChildren, cutAt_of_uncut (level_of_padded htext (level_of_derives h)).uncut,
      mapM_eq_ok_iff, List.map_singleton, Text.trim_eq_of_padded htext]
    exact .cons ((readChars_trim h).trans (readChars_of_derives h)) .nil
  | _, _, .cons h htext hrest => by
    have hes := mapM_of_derivesParts hrest
    have hlevel := level_of_padded htext (level_of_derives h)
    rw [splitChildren, mapM_eq_ok_iff] at hes ⊢
    rw [cutAt_append_semicolon hlevel.uncut hlevel.ended, List.map_cons,
      Text.trim_eq_of_padded htext]
    exact .cons ((readChars_trim h).trans (readChars_of_derives h)) hes

end

/-- **The reader accepts exactly the grammar and builds exactly its trees.** -/
theorem parse_eq_ok_iff_derives (catalog : Catalog) (token : String) (e : Effect) :
    parse catalog token = .ok e ↔ Derives catalog token.toList e :=
  ⟨derives_of_readChars token.toList, readChars_of_derives⟩

end Effect

end CardContent
