import CardContent.Proofs.Effect.Grammar
import CardContent.Proofs.Effect.Tree

/-!
# Printed effects read back

Printing asks nothing of an effect: its numbers need not be in any catalog, and its compounds may
be without parts. Reading the token again gives the effect with the descriptions of the catalog,
or the first thing that is wrong with it.

Results:
* `level_tokenChars`, `trimmed_tokenChars`: a printed token is a whole piece without white space
  around it, so the token of a compound is cut into the tokens of its parts.
* `readChars_tokenChars`: reading a printed token, by induction on the effect.
* `parse_token_iff`: the same for tokens as they stand on cards, with the condition under which
  they read back.
-/

set_option autoImplicit false

namespace CardContent.Effect

variable {catalog : Catalog}

/-! ## The shape of a printed token -/

theorem signed_name (leaf : Leaf) : Numeral.Signed leaf.call.name leaf.index.toNat :=
  .plain (Numeral.digits_ofNat _)

theorem paramText_args (leaf : Leaf) : ParamText leaf.call.args leaf.param := by
  unfold Leaf.call
  cases leaf.param with
  | none => exact .none
  | some p => exact .some (Numeral.signed_ofInt p.toInt)

mutual

/-- A printed token is a whole piece wherever it stands. -/
theorem level_tokenChars : ∀ e : Effect, Level 0 e.tokenChars
  | .simple leaf =>
    Call.level_write (plain_of_signed (signed_name leaf))
      ((level_of_plain (plain_of_paramText (paramText_args leaf))).mono (Nat.zero_le 1))
  | .compound combinator children _ =>
    Call.level_write (plain_keyword combinator) (level_intercalate (level_tokensChars children))

theorem level_tokensChars : ∀ (es : List Effect), ∀ piece ∈ tokensChars es, Level 0 piece
  | [], piece, h => absurd h List.not_mem_nil
  | e :: es, piece, h => by
    rcases List.mem_cons.mp h with rfl | h
    · exact level_tokenChars e
    · exact level_tokensChars es piece h

end

theorem trimmed_tokenChars (e : Effect) : Text.Trimmed e.tokenChars := by
  cases e with
  | simple leaf =>
    exact trimmed_write fun c hc => (signed_name leaf).not_blank c (List.mem_of_mem_head? hc)
  | compound combinator children optional => exact trimmed_keyword combinator _ optional

theorem token_ne_empty (e : Effect) : e.token ≠ "" := by
  intro h
  have hlist : e.tokenChars = [] := by
    have := congrArg String.toList h
    rwa [token, String.toList_ofList] at this
  cases e <;> simp [tokenChars, Call.write] at hlist

/-- **The token of a compound is cut into the tokens of its parts.** -/
theorem splitChildren_tokensChars {es : List Effect} (hne : es ≠ []) :
    splitChildren ([';'].intercalate (tokensChars es)) = tokensChars es := by
  have hpieces : tokensChars es ≠ [] := by
    rw [tokensChars_eq_map]
    exact fun h => hne (List.map_eq_nil_iff.mp h)
  rw [splitChildren, cutAt_intercalate hpieces (level_tokensChars es), tokensChars_eq_map,
    List.map_map]
  exact List.map_congr_left fun e _ => Text.trim_of_trimmed (trimmed_tokenChars e)

/-! ## Reading it -/

/-- A printed leaf is read with the description of the catalog, if its number has one. -/
theorem readLeaf_call (leaf : Leaf) :
    readLeaf catalog leaf.call.write =
      match catalog.get? leaf.index with
      | none =>
        .error (.badIndex (simple leaf).token (Numeral.natText leaf.index.toNat))
      | some description => .ok { leaf with description } := by
  have hread := Call.read_write (plain_of_signed (signed_name leaf))
  have hnumber : Numeral.uint64? (Text.trim leaf.call.name) = some leaf.index := by
    rw [Text.trim_of_trimmed (signed_name leaf).trimmed]
    exact Numeral.uint64?_ofNat leaf.index
  have hparam : readParam leaf.call.write leaf.call.args = .ok leaf.param := by
    rw [readParam_eq_ok_iff, Text.trim_of_trimmed (paramText_trimmed (paramText_args leaf))]
    exact paramText_args leaf
  unfold readLeaf
  rw [Call.parse_eq_ok_iff.mpr hread]
  simp only [bind, Except.bind, hnumber, hparam]
  cases catalog.get? leaf.index <;> rfl

theorem readChars_nil : readChars catalog [] = .error (.malformed "") := by
  rw [readChars_eq]
  rfl

mutual

/-- **A printed token reads back** with the descriptions of the catalog, unless something is wrong
with a part of the effect: then the first such part decides. -/
theorem readChars_tokenChars : ∀ e : Effect, readChars catalog e.tokenChars =
    (e.firstOffence? catalog).elim (.ok (e.redescribe catalog)) .error
  | .simple leaf => by
    rw [tokenChars, readChars_number (Text.padded_refl _) (signed_name leaf), readLeaf_call,
      redescribe]
    unfold firstOffence? parts
    rw [List.findSome?_singleton, offence?]
    cases hd : catalog.get? leaf.index with
    | none => rw [if_neg (Catalog.get?_eq_none_iff.mp hd)]; rfl
    | some description =>
      obtain ⟨hlow, hhigh, -⟩ := Catalog.get?_eq_some_iff.mp hd
      rw [if_pos ⟨hlow, hhigh⟩]
      rfl
  | .compound combinator [] optional => by
    rw [tokenChars, readChars_keyword, tokensChars]
    show ([[]].mapM (readChars catalog) >>= _) = _
    rw [List.mapM_cons, readChars_nil]
    rfl
  | .compound combinator (e :: es) optional => by
    rw [tokenChars, readChars_keyword, splitChildren_tokensChars (List.cons_ne_nil e es),
      mapM_tokensChars (e :: es), redescribe]
    unfold firstOffence?
    rw [parts, List.findSome?_cons, offence?]
    cases (partsOf (e :: es)).findSome? (offence? catalog) <;> rfl

/-- The tokens of several effects, read one after the other. -/
theorem mapM_tokensChars : ∀ es : List Effect, (tokensChars es).mapM (readChars catalog) =
    ((partsOf es).findSome? (offence? catalog)).elim (.ok (redescribeAll catalog es)) .error
  | [] => rfl
  | e :: es => by
    rw [tokensChars, List.mapM_cons, readChars_tokenChars e, mapM_tokensChars es, partsOf,
      List.findSome?_append, redescribeAll]
    unfold firstOffence?
    cases e.parts.findSome? (offence? catalog) with
    | some fault => rfl
    | none => cases (partsOf es).findSome? (offence? catalog) <;> rfl

end

/-- A resolved effect reads back as it is. -/
theorem parse_token_of_resolved {e : Effect} (h : Resolved catalog e) :
    parse catalog e.token = .ok e := by
  rw [parse, token, String.toList_ofList, readChars_tokenChars,
    firstOffence?_eq_none_iff.mpr h.toWellFormed, Option.elim_none,
    (redescribe_eq_self_iff h.toWellFormed).mpr h.described]

/-- The tokens of resolved effects are read as these effects. -/
theorem parseAll_tokens {es : List Effect} (h : ∀ e ∈ es, Resolved catalog e) :
    parseAll catalog (es.map token) = .ok es := by
  refine mapM_eq_ok_iff.mpr (List.forall₂_map_left_iff.mpr (List.forall₂_same.mpr ?_))
  exact fun e he => parse_token_of_resolved (h e he)

/-- **Reading undoes printing**: a printed effect is read exactly if all its numbers are in the
catalog and no compound in it is without parts; what is read has the descriptions of the catalog
and is the effect itself exactly if it had them before. Otherwise the fault is that of the first
part, depth first, with anything wrong. -/
theorem parse_token_iff (catalog : Catalog) (e : Effect) :
    ((∃ read, parse catalog e.token = .ok read) ↔
      (∀ leaf ∈ e.leaves, 1 ≤ leaf.index.toNat ∧ leaf.index.toNat < catalog.size) ∧
        ∀ part ∈ e.parts, part.children? ≠ some []) ∧
    (∀ read, parse catalog e.token = .ok read → read = e.redescribe catalog ∧
      (read = e ↔ ∀ leaf ∈ e.leaves, catalog.get? leaf.index = some leaf.description)) ∧
    ∀ fault, parse catalog e.token = .error fault ↔ e.firstOffence? catalog = some fault := by
  have hparse : parse catalog e.token =
      (e.firstOffence? catalog).elim (.ok (e.redescribe catalog)) .error := by
    rw [parse, token, String.toList_ofList, readChars_tokenChars]
  have hformed : e.firstOffence? catalog = none ↔
      (∀ leaf ∈ e.leaves, 1 ≤ leaf.index.toNat ∧ leaf.index.toNat < catalog.size) ∧
        ∀ part ∈ e.parts, part.children? ≠ some [] :=
    firstOffence?_eq_none_iff.trans ⟨fun h => ⟨h.leaves, h.compounds⟩, fun h => ⟨h.1, h.2⟩⟩
  rw [hparse, ← hformed]
  cases hoff : e.firstOffence? catalog with
  | some fault =>
    refine ⟨⟨?_, ?_⟩, ?_, ?_⟩
    · rintro ⟨read, h⟩; cases h
    · intro h; cases h
    · intro read h; cases h
    · intro fault'
      rw [Option.elim_some, Except.error.injEq, Option.some.injEq]
  | none =>
    refine ⟨⟨fun _ => rfl, fun _ => ⟨_, rfl⟩⟩, ?_, ?_⟩
    · intro read h
      obtain rfl : e.redescribe catalog = read := Except.ok.inj h
      exact ⟨rfl, redescribe_eq_self_iff (firstOffence?_eq_none_iff.mp hoff)⟩
    · intro fault
      constructor <;> intro h <;> cases h

end CardContent.Effect
