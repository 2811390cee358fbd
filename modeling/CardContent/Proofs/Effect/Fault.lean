import CardContent.Proofs.Effect.Call
import CardContent.Proofs.Effect.Grammar
import CardContent.Proofs.Text.Words
import Mathlib

/-!
# Where a token is wrong

Reading a token stops at the first thing that is wrong with it, and the error names the part of the
token in which it stands.

* `Flaw catalog token fault` says what is wrong with a token by itself, its parts aside: it is no
  call, or the call of something that is no number, or has a parameter that is none, or a number
  that the catalog has not. The first of these counts.
* `Leads catalog token part` says that `part` is come upon first in `token`: it is the token itself,
  or it is come upon first in a part of a compound in front of which all parts are read.

Results:
* `exists_keyword`: what begins like a compound and has the form of a call is the call of a keyword.
* `readChars_eq_error_iff`: reading fails with the flaw of the part that it is led to, and only so.
* `Leads.isInfix`: that part stands in the token as it is.
* `parse_error_located`: so the error of a token is the error of a part of it by itself.
-/

set_option autoImplicit false

namespace CardContent

namespace TokenError

/-- The token that an error is about. -/
def token : TokenError → String
  | .malformed token | .badIndex token _ | .badParam token _ => token

/-- What an error quotes of its token. -/
def quoted? : TokenError → Option String
  | .malformed _ => none
  | .badIndex _ index => some index
  | .badParam _ param => some param

end TokenError

namespace Effect

variable {catalog : Catalog} {token part args : List Char} {fault : TokenError} {call : Call}

/-- What is wrong with a token by itself. -/
inductive Flaw (catalog : Catalog) (token : List Char) : TokenError → Prop where
  /-- It does not have the form of a call. -/
  | form (h : ∀ call : Call, ¬call.Spells token) :
      Flaw catalog token (.malformed (String.ofList token))
  /-- It calls something that is neither a combinator nor a number. -/
  | number {call : Call} (hcall : call.Spells token)
      (hname : ∀ combinator : Combinator, call.name ≠ combinator.keyword.toList)
      (h : ∀ index : UInt64, ¬Numeral.Unsigned (Text.trim call.name) index.toNat) :
      Flaw catalog token (.badIndex (String.ofList token) (String.ofList call.name))
  /-- It calls a number with something that is no parameter. -/
  | param {call : Call} {index : UInt64} (hcall : call.Spells token)
      (hindex : Numeral.Unsigned (Text.trim call.name) index.toNat)
      (h : ∀ param, ¬ParamText (Text.trim call.args) param) :
      Flaw catalog token
        (.badParam (String.ofList token) (String.ofList (Text.trim call.args)))
  /-- It calls a number that is none of the catalog. -/
  | unlisted {call : Call} {index : UInt64} {param : Option Int32} (hcall : call.Spells token)
      (hindex : Numeral.Unsigned (Text.trim call.name) index.toNat)
      (hparam : ParamText (Text.trim call.args) param)
      (h : ¬(1 ≤ index.toNat ∧ index.toNat < catalog.size)) :
      Flaw catalog token (.badIndex (String.ofList token) (String.ofList call.name))

/-- Reading the token from left to right comes upon `part` before anything that is not read. -/
inductive Leads (catalog : Catalog) : List Char → List Char → Prop where
  | here (token : List Char) : Leads catalog token token
  | inside {combinator : Combinator} {args piece part : List Char} {optional : Bool}
      {front back : List (List Char)} (hpieces : splitChildren args = front ++ piece :: back)
      (hfront : ∀ earlier ∈ front, ∃ e, readChars catalog earlier = .ok e)
      (hpart : Leads catalog piece part) :
      Leads catalog (Call.write ⟨combinator.keyword.toList, args, optional⟩) part

/-! ## Keywords -/

/-- **What begins like a compound calls a keyword**, so no other name is ever met there. -/
theorem exists_keyword (hopens : opensCompound token = true) (hcall : call.Spells token) :
    ∃ combinator : Combinator, call.name = combinator.keyword.toList := by
  have hspells : ∀ combinator : Combinator, combinator.keyword.toList ++ ['('] <+: token →
      call.name = combinator.keyword.toList := by
    rintro combinator ⟨rest, rfl⟩
    rw [hcall.name_eq]
    cases combinator <;> rfl
  simp only [opensCompound, Bool.or_eq_true, List.isPrefixOf_iff_prefix] at hopens
  rcases hopens with h | h
  · exact ⟨.all, hspells .all h⟩
  · exact ⟨.one, hspells .one h⟩

theorem opensCompound_eq_false_iff (hcall : call.Spells token) :
    opensCompound token = false ↔
      ∀ combinator : Combinator, call.name ≠ combinator.keyword.toList := by
  constructor
  · rintro h combinator hname
    obtain ⟨name, args, optional⟩ := call
    obtain rfl : name = _ := hname
    rw [hcall.text, opensCompound_keyword] at h
    cases h
  · intro h
    rw [← Bool.not_eq_true]
    intro hopens
    obtain ⟨combinator, hname⟩ := exists_keyword hopens hcall
    exact h combinator hname

/-- A number is no keyword. -/
theorem opensCompound_of_number {index : UInt64} (hcall : call.Spells token)
    (hindex : Numeral.Unsigned (Text.trim call.name) index.toNat) :
    opensCompound token = false := by
  rw [hcall.text]
  exact opensCompound_number (Text.padded_trim call.name) hindex.signed

/-! ## Flaws of leaves -/

theorem readParam_eq_error_iff : readParam token args = .error fault ↔
    fault = .badParam (String.ofList token) (String.ofList (Text.trim args)) ∧
      ∀ param, ¬ParamText (Text.trim args) param := by
  have hfault : ∀ {fault}, readParam token args = .error fault →
      fault = .badParam (String.ofList token) (String.ofList (Text.trim args)) := by
    intro fault h
    unfold readParam at h
    simp only at h
    split at h
    · cases h
    · split at h
      · cases h
      · cases h
        rfl
  constructor
  · intro h
    refine ⟨hfault h, fun param hparam => ?_⟩
    rw [readParam_eq_ok_iff.mpr hparam] at h
    cases h
  · rintro ⟨rfl, h⟩
    cases hread : readParam token args with
    | ok param => exact absurd (readParam_eq_ok_iff.mp hread) (h param)
    | error fault => rw [hfault hread]

/-- **A leaf fails with its flaw.** -/
theorem readLeaf_eq_error_iff (hleaf : opensCompound token = false) :
    readLeaf catalog token = .error fault ↔ Flaw catalog token fault := by
  unfold readLeaf
  rw [bind_eq_error_iff, Call.parse_eq_error_iff]
  constructor
  · rintro (⟨rfl, h⟩ | ⟨call, hcall, h⟩)
    · exact .form h
    · have hspells := Call.read_eq_some_iff_spells.mp (Call.parse_eq_ok_iff.mp hcall)
      split at h
      · rename_i hindex
        cases h
        exact .number hspells ((opensCompound_eq_false_iff hspells).mp hleaf)
          (Numeral.uint64?_eq_none_iff.mp hindex)
      · rename_i index hindex
        have hnumber := Numeral.uint64?_eq_some_iff.mp hindex
        rcases bind_eq_error_iff.mp h with h | ⟨param, hparam, h⟩
        · obtain ⟨rfl, hparam⟩ := readParam_eq_error_iff.mp h
          exact .param hspells hnumber hparam
        · split at h
          · rename_i hget
            cases h
            exact .unlisted hspells hnumber (readParam_eq_ok_iff.mp hparam)
              (Catalog.get?_eq_none_iff.mp hget)
          · cases h
  · intro h
    have hparse : ∀ {call : Call}, call.Spells token → Call.parse token = .ok call :=
      fun hcall => Call.parse_eq_ok_iff.mpr (Call.read_eq_some_iff_spells.mpr hcall)
    cases h with
    | form h => exact Or.inl ⟨rfl, h⟩
    | number hcall _ h =>
      refine Or.inr ⟨_, hparse hcall, ?_⟩
      rw [Numeral.uint64?_eq_none_iff.mpr h]
    | param hcall hindex h =>
      refine Or.inr ⟨_, hparse hcall, ?_⟩
      rw [Numeral.uint64?_eq_some_iff.mpr hindex]
      exact bind_eq_error_iff.mpr (Or.inl (readParam_eq_error_iff.mpr ⟨rfl, h⟩))
    | unlisted hcall hindex hparam h =>
      refine Or.inr ⟨_, hparse hcall, ?_⟩
      rw [Numeral.uint64?_eq_some_iff.mpr hindex]
      refine bind_eq_error_iff.mpr (Or.inr ⟨_, readParam_eq_ok_iff.mpr hparam, ?_⟩)
      rw [Catalog.get?_eq_none_iff.mpr h]

/-! ## The part that reading is led to -/

/-- A token that fails by itself fails with its flaw, be it a leaf or a compound. -/
theorem readChars_of_flaw (h : Flaw catalog token fault) :
    readChars catalog token = .error fault := by
  have hleaf : opensCompound token = false → readChars catalog token = .error fault := by
    intro hleaf
    rw [readChars_eq, hleaf, (readLeaf_eq_error_iff hleaf).mpr h]
    rfl
  cases h with
  | form h =>
    cases hopens : opensCompound token with
    | false => exact hleaf hopens
    | true =>
      rw [readChars_eq, hopens, Call.parse_eq_error_iff.mpr ⟨rfl, h⟩]
      rfl
  | number hcall hname _ => exact hleaf ((opensCompound_eq_false_iff hcall).mpr hname)
  | param hcall hindex _ => exact hleaf (opensCompound_of_number hcall hindex)
  | unlisted hcall hindex _ _ => exact hleaf (opensCompound_of_number hcall hindex)

/-- **Reading fails where it is led to.** By induction on the length of the token: the parts of a
compound are shorter. -/
theorem exists_leads (token : List Char) (h : readChars catalog token = .error fault) :
    ∃ part, Leads catalog token part ∧ Flaw catalog part fault := by
  rw [readChars_eq] at h
  split at h
  · rename_i hopens
    rcases bind_eq_error_iff.mp h with h | ⟨call, hcall, h⟩
    · obtain ⟨rfl, hform⟩ := Call.parse_eq_error_iff.mp h
      exact ⟨token, .here token, .form hform⟩
    · have hread := Call.parse_eq_ok_iff.mp hcall
      obtain ⟨combinator, hname⟩ := exists_keyword hopens (Call.read_eq_some_iff_spells.mp hread)
      have hkeyword : Combinator.ofKeyword? (String.ofList call.name) = some combinator := by
        rw [Combinator.ofKeyword?_eq_some_iff, hname, String.ofList_toList]
      rw [hkeyword] at h
      rcases bind_eq_error_iff.mp h with h | ⟨children, -, h⟩
      · obtain ⟨front, piece, back, hpieces, hfront, hpiece⟩ := mapM_eq_error_iff.mp h
        have hmem : piece ∈ splitChildren call.args := by
          rw [hpieces]
          exact List.mem_append_right front List.mem_cons_self
        have : piece.length < token.length := Nat.lt_of_le_of_lt
          (length_le_of_mem_splitChildren hmem) (Call.length_args_lt_of_read hread)
        obtain ⟨part, hpart, hflaw⟩ := exists_leads piece hpiece
        obtain ⟨name, args, optional⟩ := call
        obtain rfl : name = _ := hname
        rw [Call.eq_write_of_read hread]
        exact ⟨part, .inside hpieces hfront hpart, hflaw⟩
      · cases h
  · rename_i hopens
    rcases bind_eq_error_iff.mp h with h | ⟨leaf, -, h⟩
    · exact ⟨token, .here token, (readLeaf_eq_error_iff (Bool.eq_false_iff.mpr hopens)).mp h⟩
    · cases h
termination_by token.length

/-- **Reading fails with the flaw of the part that it is led to**, and only so. -/
theorem readChars_eq_error_iff : readChars catalog token = .error fault ↔
    ∃ part, Leads catalog token part ∧ Flaw catalog part fault := by
  constructor
  · exact exists_leads token
  · rintro ⟨part, hleads, hflaw⟩
    induction hleads with
    | here => exact readChars_of_flaw hflaw
    | inside hpieces hfront _ ih =>
      rw [readChars_keyword]
      exact bind_eq_error_iff.mpr
        (Or.inl (mapM_eq_error_iff.mpr ⟨_, _, _, hpieces, hfront, ih hflaw⟩))

/-! ## Parts of a text -/

theorem isInfix_trim (text : List Char) : Text.trim text <:+: text := by
  obtain ⟨before, behind, -, -, htext⟩ := Text.padded_trim text
  exact ⟨before, behind, htext.symm⟩

theorem isInfix_of_mem_splitChildren {piece : List Char} (h : piece ∈ splitChildren args) :
    piece <:+: args := by
  obtain ⟨raw, hraw, rfl⟩ := List.mem_map.mp h
  have hwhole : raw <:+: [';'].intercalate (cutAt 0 args) := Text.isInfix_intercalate hraw
  rw [intercalate_cutAt] at hwhole
  exact (isInfix_trim raw).trans hwhole

theorem name_isInfix_write (call : Call) : call.name <:+: call.write :=
  ⟨[], '(' :: call.args ++ ')' :: if call.optional then ['?'] else [], by simp [Call.write]⟩

theorem args_isInfix_write (call : Call) : call.args <:+: call.write :=
  ⟨call.name ++ ['('], ')' :: if call.optional then ['?'] else [], by simp [Call.write]⟩

/-- **The part that reading is led to stands in the token as it is.** -/
theorem Leads.isInfix (h : Leads catalog token part) : part <:+: token := by
  induction h with
  | here => exact List.infix_rfl
  | @inside combinator args piece _ optional front _ hpieces _ _ ih =>
    have hpiece : piece ∈ splitChildren args := by
      rw [hpieces]
      exact List.mem_append_right front List.mem_cons_self
    have hargs := args_isInfix_write ⟨combinator.keyword.toList, args, optional⟩
    exact (ih.trans (isInfix_of_mem_splitChildren hpiece)).trans hargs

/-! ## What an error says -/

/-- The error of a flaw is about the token that has it. -/
theorem Flaw.token_eq (h : Flaw catalog token fault) : fault.token = String.ofList token := by
  cases h <;> rfl

/-- The error of a flaw quotes what stands in the token. -/
theorem Flaw.quoted_isInfix (h : Flaw catalog token fault) :
    ∀ quoted ∈ fault.quoted?, quoted.toList <:+: token := by
  have hname : ∀ {call : Call}, call.Spells token → call.name <:+: token :=
    fun hcall => hcall.text ▸ name_isInfix_write _
  intro quoted hquoted
  cases h with
  | form => cases hquoted
  | number hcall _ _ | unlisted hcall _ _ _ =>
    obtain rfl := Option.some.inj hquoted
    rw [String.toList_ofList]
    exact hname hcall
  | param hcall _ _ =>
    obtain rfl := Option.some.inj hquoted
    rw [String.toList_ofList, hcall.text]
    exact (isInfix_trim _).trans (args_isInfix_write _)

/-- A token with a flaw does not have the form of a compound. -/
theorem Flaw.ne_compound (h : Flaw catalog token fault) (combinator : Combinator)
    (args : List Char) (optional : Bool) :
    token ≠ Call.write ⟨combinator.keyword.toList, args, optional⟩ := by
  intro htext
  have hspells : Call.Spells ⟨combinator.keyword.toList, args, optional⟩ token :=
    ⟨htext, fun hmem => (plain_keyword combinator _ hmem).1 rfl⟩
  have hopens : opensCompound token = true := by rw [htext, opensCompound_keyword]
  cases h with
  | form h => exact h _ hspells
  | number hcall hname _ => exact hname combinator (by rw [hcall.unique hspells])
  | param hcall hindex _ | unlisted hcall hindex _ _ =>
    rw [opensCompound_of_number hcall hindex] at hopens
    cases hopens

/-- **The error of a token is the error of a part of it by itself.** The part that the error names
stands in the token as it is, and reading it alone gives the same error. It does not have the form
of a compound: what begins like one and is a call is the call of a keyword, here and anywhere. It is
what reading from left to right comes upon, at each level with all parts in front of it read. What
the error quotes besides stands in the part. -/
theorem parse_error_located (catalog : Catalog) (token : String) (fault : TokenError)
    (h : parse catalog token = .error fault) :
    fault.token.toList <:+: token.toList ∧
      parse catalog fault.token = .error fault ∧
      Leads catalog token.toList fault.token.toList ∧
      (∀ (combinator : Combinator) (args : List Char) (optional : Bool),
        fault.token.toList ≠ Call.write ⟨combinator.keyword.toList, args, optional⟩) ∧
      (∀ (text : List Char) (call : Call), opensCompound text = true →
        Call.parse text = .ok call →
          ∃ combinator, Combinator.ofKeyword? (String.ofList call.name) = some combinator) ∧
      ∀ quoted ∈ fault.quoted?, quoted.toList <:+: fault.token.toList := by
  obtain ⟨part, hleads, hflaw⟩ := readChars_eq_error_iff.mp h
  have hpart : fault.token.toList = part := by rw [hflaw.token_eq, String.toList_ofList]
  rw [parse, hpart]
  refine ⟨hleads.isInfix, readChars_of_flaw hflaw, hleads, hflaw.ne_compound, ?_,
    hflaw.quoted_isInfix⟩
  intro text call hopens hcall
  have hspells := Call.read_eq_some_iff_spells.mp (Call.parse_eq_ok_iff.mp hcall)
  obtain ⟨combinator, hname⟩ := exists_keyword hopens hspells
  exact ⟨combinator, by rw [Combinator.ofKeyword?_eq_some_iff, hname, String.ofList_toList]⟩

/-- A token whose error lies two levels deep, between parts that are read and others that are
not. -/
def deepToken : String := "OR( 2(7)? ;AND(1(); 9( x ) ;(;) )?; 0())"

theorem parse_error_located_deep :
    let catalog := Catalog.ofList (List.replicate 3 "Gain 1 rune.")
    parse catalog deepToken = .error (.badParam "9( x )" "x") ∧
      "9( x )".toList <:+: deepToken.toList ∧
      parse catalog "9( x )" = .error (.badParam "9( x )" "x") ∧
      Leads catalog deepToken.toList "9( x )".toList ∧
      "9( x )".toList ≠ Call.write ⟨"OR".toList, "9".toList, true⟩ ∧
      (∃ combinator, Combinator.ofKeyword? "OR" = some combinator) ∧
      "x".toList <:+: "9( x )".toList := by
  intro catalog
  have hdeep : parse catalog deepToken = .error (.badParam "9( x )" "x") := by cbv
  obtain ⟨hpart, halone, hleads, hform, hkeyword, hquoted⟩ :=
    parse_error_located catalog deepToken _ hdeep
  have houter := hkeyword deepToken.toList
    ⟨"OR".toList, " 2(7)? ;AND(1(); 9( x ) ;(;) )?; 0()".toList, false⟩ (by decide) (by rfl)
  exact ⟨hdeep, hpart, halone, hleads, hform .one _ _, houter, hquoted "x" rfl⟩

end Effect

end CardContent
