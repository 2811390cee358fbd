import CardContent.Proofs.Content.Resolved
import CardContent.Proofs.Effect.Printing
import CardContent.Proofs.Text.Shortest
import Mathlib.Data.List.SplitBy

/-!
# A printed token is the normal form of the token that was read

A token may be written with white space and with numerals that are longer than they need to be.
Printing what was read of it leaves the white space out and shortens the numerals, and changes
nothing else: every parenthesis, semicolon, keyword and mark comes back in its place.

* `lexemes text` are the longest runs of signs and digits, and every other character by itself.
* `normalForm text` is the text without white space, each numeral in its shortest spelling. It
  knows nothing of tokens.

Results:
* `normalForm_append_mark`: at a character that belongs to no numeral, the normal form falls apart.
* `normalForm_write`: so the normal form of a call is the call of the normal forms.
* `normalForm_eq_self_iff`: a text is its own normal form exactly if it has no white space and no
  numeral that can be shortened.
* `tokenChars_of_derives`: the token of what derives from a text is the normal form of the text.
* `token_eq_normalForm`: all of this about a token that is read.
-/

set_option autoImplicit false

namespace CardContent.Effect

/-- The characters that numerals are made of. -/
def isNumeralChar (c : Char) : Bool :=
  c.isDigit || c == '+' || c == '-'

/-- The longest runs of signs and digits, and every other character by itself. -/
def lexemes (text : List Char) : List (List Char) :=
  text.splitBy fun c next => isNumeralChar c && isNumeralChar next

/-- The lexical normal form: white space is left out, and each numeral is spelled the shortest
way. -/
def normalForm (text : List Char) : List Char :=
  (lexemes (text.filter fun c => !Text.isBlank c)).flatMap Numeral.shortest

variable {catalog : Catalog}

/-! ## Numerals among the lexemes -/

theorem isNumeralChar_of_signed {text : List Char} {z : Int} (h : Numeral.Signed text z) :
    ∀ c ∈ text, isNumeralChar c = true :=
  h.forall_mem (fun c hc => by simp [isNumeralChar, hc]) (by decide) (by decide)

/-- A character that belongs to no numeral is no numeral. -/
theorem shortest_mark {c : Char} (hc : isNumeralChar c = false) :
    Numeral.shortest [c] = [c] := by
  rcases Numeral.signed_or_shortest_eq [c] with ⟨z, hz⟩ | h
  · have := isNumeralChar_of_signed hz c List.mem_cons_self
    rw [hc] at this
    cases this
  · exact h

theorem lexemes_of_signed {text : List Char} {z : Int} (h : Numeral.Signed text z) :
    lexemes text = [text] := by
  have hall := isNumeralChar_of_signed h
  refine List.splitBy_of_isChain h.ne_nil (List.Pairwise.isChain ?_)
  refine List.pairwise_of_forall_mem_list fun a ha b hb => ?_
  rw [hall a ha, hall b hb, Bool.and_self]

/-- **A text is cut at every character that belongs to no numeral.** -/
theorem lexemes_append_mark {c : Char} (hc : isNumeralChar c = false) (front back : List Char) :
    lexemes (front ++ c :: back) = lexemes front ++ [c] :: lexemes back := by
  have hfront : lexemes (front ++ c :: back) = lexemes front ++ lexemes (c :: back) :=
    List.splitBy_append_cons back fun x _ => by rw [hc, Bool.and_false]
  have hback : lexemes ([c] ++ back) = lexemes [c] ++ lexemes back := by
    refine List.splitBy_append fun x hx y _ => ?_
    obtain rfl : c = x := Option.some.inj hx
    rw [hc, Bool.false_and]
  rw [hfront, ← List.singleton_append, hback]
  rfl

/-! ## The normal form of parts -/

/-- **At a mark the normal form falls apart.** -/
theorem normalForm_append_mark {c : Char} (hc : isNumeralChar c = false)
    (hblank : Text.isBlank c = false) (front back : List Char) :
    normalForm (front ++ c :: back) = normalForm front ++ c :: normalForm back := by
  unfold normalForm
  rw [List.filter_append, List.filter_cons_of_pos (by simp [hblank]), lexemes_append_mark hc,
    List.flatMap_append, List.flatMap_cons, shortest_mark hc]
  rfl

theorem normalForm_padded {core text : List Char} (h : Text.Padded core text) :
    normalForm text = normalForm core := by
  obtain ⟨before, behind, hbefore, hbehind, rfl⟩ := h
  have hnone : ∀ {blank : List Char}, Text.Blank blank →
      blank.filter (fun c => !Text.isBlank c) = [] :=
    fun hb => List.filter_eq_nil_iff.mpr fun c hc => by simp [hb c hc]
  unfold normalForm
  rw [List.filter_append, List.filter_append, hnone hbefore, hnone hbehind, List.nil_append,
    List.append_nil]

theorem normalForm_of_signed {text : List Char} {z : Int} (h : Numeral.Signed text z) :
    normalForm text = Numeral.ofInt z := by
  have hkept : text.filter (fun c => !Text.isBlank c) = text :=
    List.filter_eq_self.mpr fun c hc => by simp [h.not_blank c hc]
  rw [normalForm, hkept, lexemes_of_signed h, List.flatMap_singleton,
    Numeral.shortest_of_signed h]

theorem normalForm_keyword (combinator : Combinator) :
    normalForm combinator.keyword.toList = combinator.keyword.toList := by
  cases combinator <;> rfl

/-- **The normal form of a call is the call of the normal forms.** -/
theorem normalForm_write (name args : List Char) (optional : Bool) :
    normalForm (Call.write ⟨name, args, optional⟩) =
      Call.write ⟨normalForm name, normalForm args, optional⟩ := by
  have hmark : normalForm (if optional then ['?'] else []) = if optional then ['?'] else [] := by
    cases optional <;> rfl
  unfold Call.write
  simp only [List.append_assoc, List.cons_append]
  rw [normalForm_append_mark (by decide) (by decide), normalForm_append_mark (by decide)
    (by decide), hmark]

theorem args_eq_normalForm {param args : List Char} {leaf : Leaf}
    (hparam : ParamText param leaf.param) (hargs : Text.Padded param args) :
    leaf.call.args = normalForm args := by
  rw [normalForm_padded hargs, Leaf.call]
  cases hp : leaf.param with
  | none =>
    rw [hp] at hparam
    cases hparam
    rfl
  | some p =>
    rw [hp] at hparam
    cases hparam with
    | some h => rw [normalForm_of_signed h]; rfl

theorem tokensChars_ne_nil {text : List Char} {es : List Effect}
    (h : DerivesParts catalog text es) : tokensChars es ≠ [] := by
  cases h <;> exact List.cons_ne_nil _ _

mutual

/-- **The token of what derives from a text is the normal form of the text.** -/
theorem tokenChars_of_derives : ∀ {token : List Char} {e : Effect}, Derives catalog token e →
    e.tokenChars = normalForm token
  | _, .simple leaf, .simple hnumber hname _ _ _ hparam hargs => by
    rw [tokenChars, normalForm_write, normalForm_padded hname,
      normalForm_of_signed hnumber.signed, ← args_eq_normalForm hparam hargs]
    rfl
  | _, _, .compound hparts => by
    rw [tokenChars, normalForm_write, normalForm_keyword, tokensChars_of_derivesParts hparts]

/-- The tokens of the parts, with semicolons between them. -/
theorem tokensChars_of_derivesParts : ∀ {text : List Char} {es : List Effect},
    DerivesParts catalog text es → [';'].intercalate (tokensChars es) = normalForm text
  | _, _, .last h htext => by
    rw [tokensChars, tokensChars, List.intercalate_singleton, normalForm_padded htext,
      tokenChars_of_derives h]
  | _, e :: es, .cons h htext hrest => by
    rw [tokensChars, List.intercalate_cons_of_ne_nil (tokensChars_ne_nil hrest),
      tokensChars_of_derivesParts hrest, normalForm_append_mark (by decide) (by decide),
      normalForm_padded htext, tokenChars_of_derives h, List.append_assoc, List.singleton_append]

end

/-! ## What is its own normal form -/

theorem not_blank_of_mem_normalForm {text : List Char} {c : Char} (h : c ∈ normalForm text) :
    Text.isBlank c = false := by
  obtain ⟨lexeme, hlexeme, hc⟩ := List.mem_flatMap.mp h
  have hkept : ∀ x ∈ lexeme, Text.isBlank x = false := by
    intro x hx
    have hmem := List.mem_flatten_of_mem hlexeme hx
    rw [lexemes, List.flatten_splitBy] at hmem
    simpa using (List.mem_filter.mp hmem).2
  rcases Numeral.signed_or_shortest_eq lexeme with ⟨z, hz⟩ | heq
  · rw [Numeral.shortest_of_signed hz] at hc
    exact (Numeral.signed_ofInt z).not_blank c hc
  · rw [heq] at hc
    exact hkept c hc

/-- A numeral stays a run of signs and digits, and anything else stays as it is. -/
theorem shortest_ends {lexeme : List Char} (hne : lexeme ≠ []) :
    ∃ hne' : Numeral.shortest lexeme ≠ [],
      isNumeralChar ((Numeral.shortest lexeme).head hne') = isNumeralChar (lexeme.head hne) ∧
      isNumeralChar ((Numeral.shortest lexeme).getLast hne') =
        isNumeralChar (lexeme.getLast hne) := by
  rcases Numeral.signed_or_shortest_eq lexeme with ⟨z, hz⟩ | heq
  · have hold := isNumeralChar_of_signed hz
    have hsigned : Numeral.Signed (Numeral.shortest lexeme) z := by
      rw [Numeral.shortest_of_signed hz]
      exact Numeral.signed_ofInt z
    have hnew := isNumeralChar_of_signed hsigned
    refine ⟨hsigned.ne_nil, ?_, ?_⟩
    · rw [hnew _ (List.head_mem _), hold _ (List.head_mem hne)]
    · rw [hnew _ (List.getLast_mem _), hold _ (List.getLast_mem hne)]
  · rw [heq]
    exact ⟨hne, rfl, rfl⟩

/-- **The lexemes of a normal form are the lexemes of the text, shortened.** None of them runs into
the next one. -/
theorem lexemes_normalForm (text : List Char) : lexemes (normalForm text) =
    (lexemes (text.filter fun c => !Text.isBlank c)).map Numeral.shortest := by
  rw [normalForm, List.flatMap_def]
  refine List.splitBy_flatten ?_ ?_ ?_
  · intro hnil
    obtain ⟨lexeme, hlexeme, hempty⟩ := List.mem_map.mp hnil
    obtain ⟨hne, -⟩ := shortest_ends (List.ne_nil_of_mem_splitBy hlexeme)
    exact hne hempty
  · intro short hshort
    obtain ⟨lexeme, hlexeme, rfl⟩ := List.mem_map.mp hshort
    rcases Numeral.signed_or_shortest_eq lexeme with ⟨z, hz⟩ | heq
    · rw [Numeral.shortest_of_signed hz]
      have hall := isNumeralChar_of_signed (Numeral.signed_ofInt z)
      refine List.Pairwise.isChain (List.pairwise_of_forall_mem_list fun a ha b hb => ?_)
      rw [hall a ha, hall b hb, Bool.and_self]
    · rw [heq]
      exact List.isChain_of_mem_splitBy hlexeme
  · rw [List.isChain_map]
    refine (List.isChain_getLast_head_splitBy _ _).imp fun a b ⟨ha, hb, hends⟩ => ?_
    obtain ⟨ha', -, hlast⟩ := shortest_ends ha
    obtain ⟨hb', hhead, -⟩ := shortest_ends hb
    exact ⟨ha', hb', by rw [hlast, hhead]; exact hends⟩

/-- **A text is its own normal form** exactly if it has no white space and no numeral in it can be
shortened. -/
theorem normalForm_eq_self_iff {text : List Char} : normalForm text = text ↔
    (∀ c ∈ text, Text.isBlank c = false) ∧
      ∀ lexeme ∈ lexemes text, Numeral.shortest lexeme = lexeme := by
  constructor
  · intro h
    refine ⟨fun c hc => not_blank_of_mem_normalForm (h.symm ▸ hc), fun lexeme hlexeme => ?_⟩
    rw [← h, lexemes_normalForm] at hlexeme
    obtain ⟨long, -, rfl⟩ := List.mem_map.mp hlexeme
    exact Numeral.shortest_shortest long
  · rintro ⟨hblank, hshort⟩
    have hkept : text.filter (fun c => !Text.isBlank c) = text :=
      List.filter_eq_self.mpr fun c hc => by simp [hblank c hc]
    rw [normalForm, hkept, List.flatMap_def, List.map_congr_left hshort, List.map_id',
      lexemes, List.flatten_splitBy]

/-- **Normalising twice changes nothing.** -/
theorem normalForm_normalForm (text : List Char) :
    normalForm (normalForm text) = normalForm text := by
  refine normalForm_eq_self_iff.mpr ⟨fun c => not_blank_of_mem_normalForm, fun lexeme h => ?_⟩
  rw [lexemes_normalForm] at h
  obtain ⟨long, -, rfl⟩ := List.mem_map.mp h
  exact Numeral.shortest_shortest long

/-! ## Tokens that are read -/

/-- **Printing what was read of a token gives the normal form of the token**: the token without its
white space, with every numeral in its shortest spelling. So a token is printed as it was exactly
if it has neither white space nor a numeral that can be shortened. The normal form is its own normal
form and is read as the same effect. -/
theorem token_eq_normalForm (catalog : Catalog) (token : String) (e : Effect)
    (h : parse catalog token = .ok e) :
    e.token = String.ofList (normalForm token.toList) ∧
      (e.token = token ↔ (∀ c ∈ token.toList, Text.isBlank c = false) ∧
        ∀ lexeme ∈ lexemes token.toList, Numeral.shortest lexeme = lexeme) ∧
      (∀ text, normalForm (normalForm text) = normalForm text) ∧
      parse catalog (String.ofList (normalForm token.toList)) = .ok e := by
  have hderives := derives_of_readChars token.toList h
  have htoken : e.token = String.ofList (normalForm token.toList) := by
    rw [Effect.token, tokenChars_of_derives hderives]
  refine ⟨htoken, ?_, normalForm_normalForm, ?_⟩
  · rw [htoken, ← normalForm_eq_self_iff, ← String.toList_inj, String.toList_ofList]
  · rw [← htoken]
    exact parse_token_of_resolved (resolved_of_derives hderives)

/-- A token with white space of several kinds and numerals that can be shortened. -/
def looseToken : String := "OR( +007 (-0)? ;\u00A0AND(1(+05);\t2()) )?"

theorem token_eq_normalForm_loose :
    let catalog := Catalog.ofList (List.replicate 7 "Gain.")
    let leaf (index : UInt64) (param : Option Int32) (optional : Bool) :=
      Effect.simple ⟨index, "Gain.", param, optional⟩
    let e := Effect.compound .one [leaf 7 (some 0) true,
      .compound .all [leaf 1 (some 5) false, leaf 2 none false] false] true
    parse catalog looseToken = .ok e ∧ e.token = String.ofList (normalForm looseToken.toList) ∧
      e.token = "OR(7(0)?;AND(1(5);2()))?" := by
  intro catalog leaf e
  have hread : parse catalog looseToken = .ok e := by cbv
  exact ⟨hread, (token_eq_normalForm catalog looseToken e hread).1, by cbv⟩

end CardContent.Effect
