import CardContent.Effect.Basic
import CardContent.Text.Numeral

/-!
# Effect tokens

A card gives an effect as a token in the form of a call: a name, arguments in parentheses, and `?`
behind them if the effect is optional. A leaf is called by its number with its parameter as the
argument, a compound by the keyword of its combinator with its parts between semicolons:
`OR(3(5);AND(1();4()?))?`.

`Call.read` and `Call.write` are the outer form of a token, with any text for name and arguments;
`cutAt` takes the arguments of a compound apart at the semicolons outside parentheses.

Main statements: `Call.eq_write_of_read`, a call is read only from the text written for it, and
`intercalate_cutAt`, the pieces between semicolons make up the whole text.
-/

set_option autoImplicit false

namespace CardContent

/-- The outer form of a token. -/
structure Call where
  name : List Char
  args : List Char
  optional : Bool
  deriving DecidableEq, Repr

namespace Call

/-- The text of a call. -/
def write (call : Call) : List Char :=
  call.name ++ '(' :: call.args ++ ')' :: if call.optional then ['?'] else []

/-- The call that a text is: the name ends at the first `(`, and the arguments at a `)` with at
most a `?` behind it. Parentheses inside the arguments need not match. -/
def read (token : List Char) : Option Call :=
  let optional := token.getLast? == some '?'
  let body := if optional then token.dropLast else token
  match body.dropWhile (· != '(') with
  | [] => none
  | _ :: rest =>
    if rest.getLast? = some ')' then
      some ⟨body.takeWhile (· != '('), rest.dropLast, optional⟩
    else none

theorem eq_write_of_read {token : List Char} {call : Call} (h : read token = some call) :
    token = call.write := by
  unfold read at h
  simp only at h
  split at h
  · cases h
  · next x rest hd =>
    split at h
    · next hl =>
      obtain ⟨args, rfl⟩ := List.getLast?_eq_some_iff.mp hl
      cases h
      have hx := List.head?_dropWhile_not (· != '(')
        (if (token.getLast? == some '?') = true then token.dropLast else token)
      rw [hd] at hx
      simp only [List.head?_cons, bne_eq_false_iff_eq] at hx
      have hb := List.takeWhile_append_dropWhile (p := (· != '('))
        (l := if (token.getLast? == some '?') = true then token.dropLast else token)
      rw [hd, hx] at hb
      unfold write
      by_cases hq : (token.getLast? == some '?') = true
      · simp only [hq, if_true] at hb ⊢
        obtain ⟨front, rfl⟩ := List.getLast?_eq_some_iff.mp (eq_of_beq hq)
        rw [List.dropLast_concat] at hb ⊢
        conv => lhs; rw [← hb]
        simp
      · simp only [hq, Bool.false_eq_true, if_false] at hb ⊢
        conv => lhs; rw [← hb]
        simp
    · cases h

theorem length_args_lt_of_read {token : List Char} {call : Call} (h : read token = some call) :
    call.args.length < token.length := by
  rw [eq_write_of_read h, write]
  simp only [List.length_append, List.length_cons]
  omega

end Call

/-! ## Arguments of a compound -/

/-- The nesting depth behind a character; a `)` too many leaves it at 0 (`split_children`). -/
def depthAfter (depth : Nat) (c : Char) : Nat :=
  if c = '(' then depth + 1 else if c = ')' then depth - 1 else depth

/-- The pieces between the semicolons met at depth 0, as they stand, starting `depth` deep. -/
def cutAt (depth : Nat) : List Char → List (List Char)
  | [] => [[]]
  | c :: rest =>
    if c = ';' ∧ depth = 0 then [] :: cutAt 0 rest
    else (cutAt (depthAfter depth c) rest).modifyHead (c :: ·)

theorem cutAt_ne_nil : ∀ (depth : Nat) (text : List Char), cutAt depth text ≠ []
  | _, [] => by simp [cutAt]
  | depth, c :: rest => by
    unfold cutAt
    split
    · exact List.cons_ne_nil _ _
    · intro h
      rw [List.modifyHead_eq_nil_iff] at h
      exact cutAt_ne_nil _ rest h

/-- The pieces with semicolons between them are the text again. -/
theorem intercalate_cutAt : ∀ (depth : Nat) (text : List Char),
    [';'].intercalate (cutAt depth text) = text
  | _, [] => by simp [cutAt]
  | depth, c :: rest => by
    unfold cutAt
    split
    · next h =>
      rw [List.intercalate_cons_of_ne_nil (cutAt_ne_nil _ _), intercalate_cutAt 0 rest, h.1]
      rfl
    · have ih := intercalate_cutAt (depthAfter depth c) rest
      cases hp : cutAt (depthAfter depth c) rest with
      | nil => exact absurd hp (cutAt_ne_nil _ _)
      | cons p ps =>
        rw [hp] at ih
        rw [List.modifyHead_cons, ← ih]
        cases ps <;> simp [List.intercalate]

theorem length_le_intercalate {α : Type} (sep : List α) : ∀ {xs : List (List α)} {x : List α},
    x ∈ xs → x.length ≤ (sep.intercalate xs).length
  | [y], x, h =>
    Nat.le_of_eq (by rw [List.mem_singleton.mp h, List.intercalate_singleton])
  | y :: z :: zs, x, h => by
    rw [List.intercalate_cons_cons, List.length_append, List.length_append]
    rcases List.mem_cons.mp h with rfl | h
    · omega
    · have := length_le_intercalate sep h
      omega

/-- No piece is longer than the text. -/
theorem length_le_of_mem_cutAt {depth : Nat} {text piece : List Char}
    (h : piece ∈ cutAt depth text) : piece.length ≤ text.length := by
  have hle := length_le_intercalate [';'] h
  rwa [intercalate_cutAt] at hle

/-! ## Printing -/

namespace Leaf

/-- The token of a leaf. -/
def call (leaf : Leaf) : Call where
  name := Numeral.ofNat leaf.index.toNat
  args := (leaf.param.map fun p => Numeral.ofInt p.toInt).getD []
  optional := leaf.optional

end Leaf

namespace Effect

mutual

/-- The token of an effect, over characters. -/
def tokenChars : Effect → List Char
  | .simple leaf => leaf.call.write
  | .compound combinator children optional =>
    (Call.mk combinator.keyword.toList ([';'].intercalate (tokensChars children)) optional).write

/-- The tokens of several effects. -/
def tokensChars : List Effect → List (List Char)
  | [] => []
  | e :: es => e.tokenChars :: tokensChars es

end

/-- The token of an effect (`Effect::to_token`). -/
def token (e : Effect) : String :=
  String.ofList e.tokenChars

theorem tokensChars_eq_map : ∀ es : List Effect, tokensChars es = es.map tokenChars
  | [] => rfl
  | e :: es => by rw [tokensChars, tokensChars_eq_map es, List.map_cons]

end Effect

end CardContent
