import CardContent.Effect.Catalog
import CardContent.Effect.Token
import CardContent.Text.Blank

/-!
# Reading effect tokens

A token is read against the catalog that its numbers refer to. White space around numbers,
parameters and the parts of a compound is passed over. None may stand in front of the keyword of a
whole token or behind its last parenthesis.

Main statement: `readChars_eq`, the equation that reading satisfies.
-/

set_option autoImplicit false

namespace CardContent

/-- Why a token is no effect (the token errors of `CardError`). -/
inductive TokenError where
  /-- The token, or a part of it, does not have the form of a call. -/
  | malformed (token : String)
  /-- What stands for the number of the description is no number, or none of the catalog. -/
  | badIndex (token index : String)
  /-- The parameter is not empty and no integer. -/
  | badParam (token param : String)
  deriving DecidableEq, Repr

namespace TokenError

/-- The text of a token error. -/
def message : TokenError → String
  | .malformed token => "Malformed effect token: " ++ token
  | .badIndex token index => "Invalid effect index '" ++ index ++ "' in token " ++ token
  | .badParam token param => "Invalid effect parameter '" ++ param ++ "' in token " ++ token

end TokenError

/-- The call that a token is (`decode_function`). -/
def Call.parse (token : List Char) : Except TokenError Call :=
  match Call.read token with
  | none => .error (.malformed (String.ofList token))
  | some call => .ok call

theorem Call.parse_eq_ok_iff {token : List Char} {call : Call} :
    Call.parse token = .ok call ↔ Call.read token = some call := by
  unfold Call.parse
  split <;> simp_all

namespace Effect

/-- Whether a token begins like a compound (the test of `parse_effect`). -/
def opensCompound (token : List Char) : Bool :=
  "AND(".toList.isPrefixOf token || "OR(".toList.isPrefixOf token

/-- The parameter that the arguments of a leaf stand for: none if they are blank. -/
def readParam (token args : List Char) : Except TokenError (Option Int32) :=
  let text := Text.trim args
  if text.isEmpty then .ok none
  else
    match Numeral.int32? text with
    | some p => .ok (some p)
    | none => .error (.badParam (String.ofList token) (String.ofList text))

/-- Read a token that does not begin like a compound (`parse_simple`). The number is read before the
parameter, and looked up behind it. -/
def readLeaf (catalog : Catalog) (token : List Char) : Except TokenError Leaf := do
  let call ← Call.parse token
  match Numeral.uint64? (Text.trim call.name) with
  | none => .error (.badIndex (String.ofList token) (String.ofList call.name))
  | some index =>
    let param ← readParam token call.args
    match catalog.get? index with
    | none => .error (.badIndex (String.ofList token) (String.ofList call.name))
    | some description => .ok ⟨index, description, param, call.optional⟩

/-- The tokens of the parts of a compound (`split_children`). -/
def splitChildren (args : List Char) : List (List Char) :=
  (cutAt 0 args).map Text.trim

theorem length_le_of_mem_splitChildren {args piece : List Char} (h : piece ∈ splitChildren args) :
    piece.length ≤ args.length := by
  obtain ⟨raw, hraw, rfl⟩ := List.mem_map.mp h
  exact Nat.le_trans (Text.length_trim_le raw) (length_le_of_mem_cutAt hraw)

/-- Read a token over characters (`parse_effect`, with `parse_compound`). -/
def readChars (catalog : Catalog) (token : List Char) : Except TokenError Effect :=
  if opensCompound token then
    match _h : Call.parse token with
    | .error fault => .error fault
    | .ok call =>
      match Combinator.ofKeyword? (String.ofList call.name) with
      | none => .error (.malformed (String.ofList token))
      | some combinator => do
        let children ← (splitChildren call.args).attach.mapM fun piece =>
          readChars catalog piece.1
        return .compound combinator children call.optional
  else return .simple (← readLeaf catalog token)
termination_by token.length
decreasing_by
  have hread := Call.parse_eq_ok_iff.mp _h
  exact Nat.lt_of_le_of_lt (length_le_of_mem_splitChildren piece.2)
    (Call.length_args_lt_of_read hread)

/-- Reading without the bookkeeping that shows the parts to be shorter. -/
theorem readChars_eq (catalog : Catalog) (token : List Char) :
    readChars catalog token =
      if opensCompound token then do
        let call ← Call.parse token
        match Combinator.ofKeyword? (String.ofList call.name) with
        | none => .error (.malformed (String.ofList token))
        | some combinator =>
          let children ← (splitChildren call.args).mapM (readChars catalog)
          return .compound combinator children call.optional
      else return .simple (← readLeaf catalog token) := by
  rw [readChars]
  split
  · split
    · next fault h => rw [h]; rfl
    · next call h =>
      rw [h]
      simp only [bind, Except.bind]
      split
      · rfl
      · rw [List.mapM_subtype fun _ _ => rfl, List.unattach_attach]
  · rfl

/-- Read a token (`parse_effect`). -/
def parse (catalog : Catalog) (token : String) : Except TokenError Effect :=
  readChars catalog token.toList

/-- Read several tokens, up to the first that is wrong (`parse_effects`). -/
def parseAll (catalog : Catalog) (tokens : List String) : Except TokenError (List Effect) :=
  tokens.mapM (parse catalog)

end Effect

end CardContent
