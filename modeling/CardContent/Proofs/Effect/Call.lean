import CardContent.Effect.Parser
import CardContent.Proofs.Effect.Cut
import Mathlib.Data.List.TakeWhile

/-!
# A text is a call in one way at most

`call.Spells token` says that the token is what is written for the call, and that the name of the
call ends where its parentheses begin. The arguments may be any text, parentheses that do not match
and question marks included.

A call can also be found by position, as offsets in bytes: the first `(` and the last `)` are looked
for each by itself, and the `)` has to be the last character but for a `?`. Nothing compares the two
positions, and yet the first comes before the second.

* `FirstAt`, `LastAt` say behind how many bytes the first and the last occurrence of a character
  stand, and `Slice text start stop part` that `part` stands between two offsets.

Results:
* `read_eq_some_iff_spells`: a token is read as a call exactly if it spells the call.
* `Spells.unique`: a token spells no two calls.
* `Bounds.exists_spells`: where a token is accepted, the arguments begin before they end.
* `read_eq_some_iff_slices`: what is read lies between the positions.
-/

set_option autoImplicit false

namespace CardContent

namespace Call

variable {call other : Call} {token : List Char}

/-- The token is the text of the call, and there is no `(` in the name. -/
structure Spells (call : Call) (token : List Char) : Prop where
  text : token = call.write
  name : '(' ∉ call.name

/-! ## Reading and writing -/

theorem not_mem_name_of_read (h : read token = some call) : '(' ∉ call.name := by
  unfold read at h
  simp only at h
  split at h
  · cases h
  · split at h
    · cases h
      exact fun hmem => by simpa using List.mem_takeWhile_imp hmem
    · cases h

/-- **A token is read as a call** exactly if it spells the call. -/
theorem read_eq_some_iff_spells : read token = some call ↔ call.Spells token := by
  constructor
  · exact fun h => ⟨eq_write_of_read h, not_mem_name_of_read h⟩
  · rintro ⟨rfl, hname⟩
    exact read_write_of_not_mem hname

/-- **A token spells one call at most.** -/
theorem Spells.unique (h : call.Spells token) (hother : other.Spells token) : call = other :=
  Option.some.inj
    ((read_eq_some_iff_spells.mpr h).symm.trans (read_eq_some_iff_spells.mpr hother))

/-- The name of a call is what stands in front of the first `(`. -/
theorem Spells.name_eq (h : call.Spells token) : call.name = token.takeWhile (· != '(') := by
  have hname : ∀ c ∈ call.name, (c != '(') = true :=
    fun c hc => bne_iff_ne.mpr fun heq => h.name (heq ▸ hc)
  rw [h.text, write, List.append_assoc, List.takeWhile_append_of_pos hname]
  simp

/-- Reading a token that spells no call says so of the token. -/
theorem parse_eq_error_iff {fault : TokenError} : parse token = .error fault ↔
    fault = .malformed (String.ofList token) ∧ ∀ call : Call, ¬call.Spells token := by
  unfold parse
  cases hread : read token with
  | none =>
    have hnone : ∀ call : Call, ¬call.Spells token := fun call h => by
      rw [read_eq_some_iff_spells.mpr h] at hread
      cases hread
    rw [Except.error.injEq, and_iff_left hnone, eq_comm]
  | some call =>
    constructor
    · intro h; cases h
    · rintro ⟨-, h⟩
      exact absurd (read_eq_some_iff_spells.mp hread) (h call)

end Call

/-! ## Positions -/

/-- The length of a text in bytes. -/
def byteLength (text : List Char) : Nat :=
  (String.ofList text).utf8ByteSize

/-- The first `c` of a text stands behind this many bytes. -/
def FirstAt (c : Char) (text : List Char) (offset : Nat) : Prop :=
  ∃ front back, text = front ++ c :: back ∧ c ∉ front ∧ byteLength front = offset

/-- The last `c` of a text stands behind this many bytes. -/
def LastAt (c : Char) (text : List Char) (offset : Nat) : Prop :=
  ∃ front back, text = front ++ c :: back ∧ c ∉ back ∧ byteLength front = offset

/-- The part of a text between two offsets. -/
def Slice (text : List Char) (start stop : Nat) (part : List Char) : Prop :=
  ∃ front back, text = front ++ part ++ back ∧ byteLength front = start ∧
    byteLength (front ++ part) = stop

theorem byteLength_append (s t : List Char) :
    byteLength (s ++ t) = byteLength s + byteLength t := by
  unfold byteLength
  rw [String.ofList_append, String.utf8ByteSize_append]

theorem byteLength_cons (c : Char) (text : List Char) :
    byteLength (c :: text) = c.utf8Size + byteLength text := by
  rw [← List.singleton_append, byteLength_append]
  exact congrArg (· + byteLength text) String.utf8ByteSize_singleton

theorem byteLength_eq_zero {text : List Char} : byteLength text = 0 ↔ text = [] := by
  unfold byteLength
  rw [String.utf8ByteSize_eq_zero_iff, String.ofList_eq_empty_iff]

theorem utf8Size_open : '('.utf8Size = 1 := rfl

theorem utf8Size_close : ')'.utf8Size = 1 := rfl

/-- Two ways to cut a text at one offset are one. -/
theorem append_inj_of_byteLength {s s' t t' : List Char} (h : s ++ t = s' ++ t')
    (hlength : byteLength s = byteLength s') : s = s' ∧ t = t' := by
  rcases List.append_eq_append_iff.mp h with ⟨more, rfl, rfl⟩ | ⟨more, rfl, rfl⟩
  · rw [byteLength_append] at hlength
    obtain rfl := byteLength_eq_zero.mp (Nat.left_eq_add.mp hlength)
    simp
  · rw [byteLength_append] at hlength
    obtain rfl := byteLength_eq_zero.mp (Nat.add_eq_left.mp hlength)
    simp

/-- What stands between two offsets stays there if the text grows. -/
theorem Slice.append {text part : List Char} {start stop : Nat} (h : Slice text start stop part)
    (more : List Char) : Slice (text ++ more) start stop part := by
  obtain ⟨front, back, rfl, hstart, hstop⟩ := h
  exact ⟨front, back ++ more, by rw [List.append_assoc _ back more], hstart, hstop⟩

/-- Between two offsets there is one part. -/
theorem Slice.unique {text part other : List Char} {start stop : Nat}
    (h : Slice text start stop part) (hother : Slice text start stop other) : part = other := by
  obtain ⟨front, back, rfl, hfront, hpart⟩ := h
  obtain ⟨front', back', htext, hfront', hother⟩ := hother
  obtain ⟨hparts, -⟩ := append_inj_of_byteLength htext (hpart.trans hother.symm)
  exact (append_inj_of_byteLength hparts (hfront.trans hfront'.symm)).2

/-! ## A call between its positions -/

namespace Call

variable {call : Call} {token : List Char} {left right : Nat}

/-- How far from the end of a token its last `)` has to stand: there may be a `?` behind it. -/
def closingLength (token : List Char) : Nat :=
  if token.getLast? = some '?' then 2 else 1

/-- What a token is accepted by: the first `(` and the last `)`, each found by itself, the latter
as far from the end as it has to be. -/
structure Bounds (token : List Char) (left right : Nat) : Prop where
  opening : FirstAt '(' token left
  closing : LastAt ')' token right
  atEnd : right + closingLength token = byteLength token

/-- What stands behind a `)` that is as far from the end as it has to be is the `?`, if any. -/
theorem eq_mark_of_length {front behind : List Char}
    (h : byteLength behind + 1 = closingLength (front ++ ')' :: behind)) :
    behind = if (front ++ ')' :: behind).getLast? = some '?' then ['?'] else [] := by
  cases behind with
  | nil => simp
  | cons c rest =>
    have hc := c.utf8Size_pos
    unfold closingLength at h
    rw [byteLength_cons] at h
    split at h
    · rename_i hlast
      obtain rfl : rest = [] := byteLength_eq_zero.mp (by omega)
      rw [if_pos hlast]
      simpa using hlast
    · omega

/-- **Where a token is accepted it spells a call**, though nothing compares the two positions: a `(`
that came first behind the last `)` would have to be the `?`. -/
theorem Bounds.exists_spells (h : Bounds token left right) :
    ∃ call : Call, call.Spells token ∧ left = byteLength call.name ∧
      right = left + 1 + byteLength call.args := by
  obtain ⟨⟨name, back, rfl, hname, rfl⟩, ⟨front, behind, htext, -, rfl⟩, hend⟩ := h
  have hmark : behind = if (name ++ '(' :: back).getLast? = some '?' then ['?'] else [] := by
    rw [htext] at hend ⊢
    rw [byteLength_append, byteLength_cons, utf8Size_close] at hend
    exact eq_mark_of_length (by omega)
  have hnoOpen : '(' ∉ behind := by
    rw [hmark]
    split <;> decide
  obtain ⟨args, rfl⟩ : ∃ args, front = name ++ '(' :: args := by
    rcases List.append_eq_append_iff.mp htext with ⟨between, rfl, hback⟩ | ⟨more, -, hfront⟩
    · cases between with
      | nil => cases hback
      | cons c args =>
        obtain ⟨rfl, -⟩ := List.cons.inj hback
        exact ⟨args, rfl⟩
    · cases more with
      | nil => cases hfront
      | cons c more =>
        obtain ⟨-, rfl⟩ := List.cons.inj hfront
        exact absurd (List.mem_append_right more List.mem_cons_self) hnoOpen
  refine ⟨⟨name, args, (name ++ '(' :: back).getLast? == some '?'⟩, ⟨?_, hname⟩, rfl, ?_⟩
  · simp only [write, beq_iff_eq, ← hmark]
    exact htext
  · rw [byteLength_append, byteLength_cons, utf8Size_open]
    exact (Nat.add_assoc _ _ _).symm

/-- The positions of a call in the token that it spells. -/
theorem Spells.bounds (h : call.Spells token) :
    Bounds token (byteLength call.name) (byteLength call.name + 1 + byteLength call.args) := by
  obtain ⟨rfl, hname⟩ := h
  have hfront : byteLength (call.name ++ '(' :: call.args) =
      byteLength call.name + 1 + byteLength call.args := by
    rw [byteLength_append, byteLength_cons, utf8Size_open, Nat.add_assoc]
  refine ⟨⟨call.name, call.args ++ ')' :: if call.optional then ['?'] else [], ?_, hname, rfl⟩,
    ⟨call.name ++ '(' :: call.args, if call.optional then ['?'] else [], rfl, ?_, hfront⟩, ?_⟩
  · simp [write]
  · split <;> decide
  · rw [closingLength, last_write]
    unfold write
    rw [byteLength_append, hfront, byteLength_cons, utf8Size_close]
    cases call.optional <;> rfl

/-- The name and the arguments of a call stand between its positions. -/
theorem Spells.slices (h : call.Spells token) :
    Slice token 0 (byteLength call.name) call.name ∧
      Slice token (byteLength call.name + 1) (byteLength call.name + 1 + byteLength call.args)
        call.args := by
  obtain ⟨rfl, -⟩ := h
  have hopen : byteLength (call.name ++ ['(']) = byteLength call.name + 1 := by
    rw [byteLength_append]
    rfl
  refine ⟨⟨[], '(' :: call.args ++ ')' :: if call.optional then ['?'] else [], ?_, rfl, rfl⟩,
    ⟨call.name ++ ['('], ')' :: if call.optional then ['?'] else [], ?_, hopen, ?_⟩⟩
  · simp [write]
  · simp [write]
  · rw [byteLength_append, hopen]

/-- **What is read lies between the positions** of the first `(` and the last `)`. -/
theorem read_eq_some_iff_slices : read token = some call ↔
    ∃ left right, Bounds token left right ∧ Slice token 0 left call.name ∧
      Slice token (left + 1) right call.args ∧
      call.optional = (token.getLast? == some '?') := by
  rw [read_eq_some_iff_spells]
  constructor
  · intro h
    refine ⟨_, _, h.bounds, h.slices.1, h.slices.2, ?_⟩
    rw [h.text, getLast?_write]
  · rintro ⟨left, right, hbounds, hname, hargs, hoptional⟩
    obtain ⟨spelled, hspelled, rfl, rfl⟩ := hbounds.exists_spells
    obtain ⟨name, args, optional⟩ := call
    obtain rfl := hname.unique hspelled.slices.1
    obtain rfl := hargs.unique hspelled.slices.2
    have hmark : (token.getLast? == some '?') = spelled.optional := by
      rw [hspelled.text, getLast?_write]
    obtain rfl : optional = spelled.optional := hoptional.trans hmark
    exact hspelled

/-- **Reading is exactly the inverse of writing.** Every token is read as the one call that it
spells, whatever the arguments are; one that spells none is refused, and the error names it. The
positions that reading goes by are in order wherever they are accepted, and the name and the
arguments are what stands in front of the first and between the two. -/
theorem parse_iff_spells (token : String) :
    (∀ call : Call, Call.parse token.toList = .ok call ↔
      token.toList = call.write ∧ '(' ∉ call.name) ∧
    (∀ call other : Call, token.toList = call.write → '(' ∉ call.name →
      token.toList = other.write → '(' ∉ other.name → call = other) ∧
    (∀ fault, Call.parse token.toList = .error fault ↔ fault = .malformed token ∧
      ∀ call : Call, ¬(token.toList = call.write ∧ '(' ∉ call.name)) ∧
    (∀ left right, Bounds token.toList left right →
      left + 1 ≤ right ∧ right ≤ byteLength token.toList) ∧
    ∀ call : Call, Call.parse token.toList = .ok call ↔
      ∃ left right, Bounds token.toList left right ∧ Slice token.toList 0 left call.name ∧
        Slice token.toList (left + 1) right call.args ∧
        call.optional = (token.toList.getLast? == some '?') := by
  have hspells : ∀ call : Call,
      token.toList = call.write ∧ '(' ∉ call.name ↔ call.Spells token.toList :=
    fun call => ⟨fun h => ⟨h.1, h.2⟩, fun h => ⟨h.text, h.name⟩⟩
  refine ⟨fun call => ?_, fun call other ht hn ht' hn' => ?_, fun fault => ?_,
    fun left right h => ?_, fun call => ?_⟩
  · rw [hspells, parse_eq_ok_iff, read_eq_some_iff_spells]
  · exact Spells.unique ⟨ht, hn⟩ ⟨ht', hn'⟩
  · simp only [hspells]
    rw [parse_eq_error_iff, String.ofList_toList]
  · obtain ⟨call, -, -, rfl⟩ := h.exists_spells
    have := h.atEnd
    omega
  · rw [parse_eq_ok_iff, read_eq_some_iff_slices]

/-- A call with parentheses that do not match and with characters of two bytes. -/
def looseCall : Call := ⟨"3ß".toList, "?)(ß".toList, true⟩

theorem parse_iff_spells_loose :
    "3ß(?)(ß)?".toList = looseCall.write ∧ '(' ∉ looseCall.name ∧
      Call.parse "3ß(?)(ß)?".toList = .ok looseCall ∧
      looseCall = ⟨['3', 'ß'], ['?', ')', '(', 'ß'], true⟩ ∧
      Bounds "3ß(?)(ß)?".toList 3 9 ∧ 3 + 1 ≤ 9 ∧ 9 ≤ byteLength "3ß(?)(ß)?".toList ∧
      Call.parse ")(".toList = .error (.malformed ")(") ∧
      ¬(")(".toList = looseCall.write ∧ '(' ∉ looseCall.name) := by
  obtain ⟨hread, hunique, -, hordered, -⟩ := parse_iff_spells "3ß(?)(ß)?"
  have htext : "3ß(?)(ß)?".toList = looseCall.write := by decide
  have hname : '(' ∉ looseCall.name := by decide
  have hbounds : Bounds "3ß(?)(ß)?".toList 3 9 := Spells.bounds ⟨htext, hname⟩
  obtain ⟨hlow, hhigh⟩ := hordered 3 9 hbounds
  have hbad : Call.parse ")(".toList = .error (.malformed ")(") := rfl
  exact ⟨htext, hname, (hread looseCall).mpr ⟨htext, hname⟩, hunique _ _ htext hname htext hname,
    hbounds, hlow, hhigh, hbad, (((parse_iff_spells ")(").2.2.1 _).mp hbad).2 looseCall⟩

end Call

end CardContent
