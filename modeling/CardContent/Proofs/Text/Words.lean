import CardContent.Proofs.Text.Trim

/-!
# Words and the spaces between them

* `IsWord` is a text that is not empty and has no white space.
* `Spaced` is a text of words with one space between any two of them and none at the ends.

Results:
* `words_append_blank`, `words_append_run`: white space parts the words in front of it from those
  behind it.
* `words_map`: to replace characters is to replace them in the words, if white space stays white
  space and letters stay letters.
* `words_joined`: words that are joined by spaces are the words of the text they make up.
* `spaced_joined_words`, `joined_words_of_spaced`: to join the words of a text is to space it, and a
  spaced text stays as it is.
-/

set_option autoImplicit false

namespace CardContent.Text

/-- A text that is not empty and has no white space. -/
structure IsWord (word : List Char) : Prop where
  ne_nil : word ≠ []
  not_blank : ∀ c ∈ word, isBlank c = false

/-- Words with one space between any two. -/
def Spaced (cs : List Char) : Prop :=
  ∃ ws, (∀ word ∈ ws, IsWord word) ∧ cs = [' '].intercalate ws

/-! ## Pieces -/

/-- The members of a piece are members of the list that is cut, and none of them is a separator. -/
theorem mem_and_not_of_mem_splitOnP {α : Type} {p : α → Bool} : ∀ {xs piece : List α},
    piece ∈ xs.splitOnP p → ∀ x ∈ piece, x ∈ xs ∧ p x = false
  | [], piece, hpiece => by
    rw [List.splitOnP_nil, List.mem_singleton] at hpiece
    rw [hpiece]
    exact fun x hx => absurd hx List.not_mem_nil
  | y :: ys, piece, hpiece => by
    have ih : ∀ piece ∈ ys.splitOnP p, ∀ x ∈ piece, x ∈ y :: ys ∧ p x = false :=
      fun piece hpiece x hx =>
        have h := mem_and_not_of_mem_splitOnP hpiece x hx
        ⟨List.mem_cons_of_mem y h.1, h.2⟩
    rw [List.splitOnP_cons_eq_if_modifyHead] at hpiece
    by_cases hy : p y = true
    · rw [if_pos hy] at hpiece
      rcases List.mem_cons.mp hpiece with rfl | hpiece
      · exact fun x hx => absurd hx List.not_mem_nil
      · exact ih piece hpiece
    · rw [if_neg hy] at hpiece
      obtain ⟨first, rest, hpieces⟩ := List.exists_cons_of_ne_nil (List.splitOnP_ne_nil p ys)
      rw [hpieces, List.modifyHead_cons] at hpiece
      rw [hpieces] at ih
      obtain ⟨hfirst, hrest⟩ := List.forall_mem_cons.mp ih
      rcases List.mem_cons.mp hpiece with rfl | hpiece
      · exact List.forall_mem_cons.mpr
          ⟨⟨List.mem_cons_self, Bool.eq_false_iff.mpr hy⟩, hfirst⟩
      · exact hrest piece hpiece

/-- Members may be replaced before or after a list is cut. -/
theorem splitOnP_map {α β : Type} (f : α → β) (p : β → Bool) : ∀ xs : List α,
    (xs.map f).splitOnP p = (xs.splitOnP fun x => p (f x)).map (List.map f)
  | [] => rfl
  | x :: xs => by
    have ih := splitOnP_map f p xs
    rw [List.map_cons, List.splitOnP_cons_eq_if_modifyHead, List.splitOnP_cons_eq_if_modifyHead, ih]
    by_cases hx : p (f x) = true
    · rw [if_pos hx, if_pos hx]
      rfl
    · rw [if_neg hx, if_neg hx]
      obtain ⟨first, rest, hpieces⟩ :=
        List.exists_cons_of_ne_nil (List.splitOnP_ne_nil (fun x => p (f x)) xs)
      rw [hpieces]
      rfl

/-! ## Words -/

theorem isWord_of_mem_words {cs word : List Char} (h : word ∈ words cs) : IsWord word := by
  obtain ⟨hpiece, hne⟩ := List.mem_filter.mp h
  exact ⟨by simpa using hne, fun c hc => (mem_and_not_of_mem_splitOnP hpiece c hc).2⟩

theorem mem_of_mem_words {cs word : List Char} (h : word ∈ words cs) : ∀ c ∈ word, c ∈ cs :=
  fun c hc => (mem_and_not_of_mem_splitOnP (List.mem_filter.mp h).1 c hc).1

/-- **White space parts the words** in front of it from those behind it. -/
theorem words_append_blank {c : Char} (hc : isBlank c = true) (front behind : List Char) :
    words (front ++ c :: behind) = words front ++ words behind := by
  unfold words
  rw [List.splitOnP_append_cons front behind hc, List.filter_append]

theorem words_nil : words [] = [] := rfl

theorem words_blank_append {run : List Char} (h : Blank run) (cs : List Char) :
    words (run ++ cs) = words cs := by
  induction run with
  | nil => rfl
  | cons c rest ih =>
    obtain ⟨hc, hrest⟩ := List.forall_mem_cons.mp h
    have hparted := words_append_blank hc [] (rest ++ cs)
    rw [words_nil, List.nil_append, List.nil_append] at hparted
    rw [List.cons_append, hparted, ih hrest]

/-- **A run of white space parts the words**, however long it is. -/
theorem words_append_run {run : List Char} (h : Blank run) (hne : run ≠ [])
    (front behind : List Char) :
    words (front ++ (run ++ behind)) = words front ++ words behind := by
  obtain ⟨c, rest, rfl⟩ := List.exists_cons_of_ne_nil hne
  obtain ⟨hc, hrest⟩ := List.forall_mem_cons.mp h
  rw [List.cons_append, words_append_blank hc, words_blank_append hrest]

theorem words_append_of_blank {run : List Char} (h : Blank run) (cs : List Char) :
    words (cs ++ run) = words cs := by
  by_cases hne : run = []
  · rw [hne, List.append_nil]
  · have hparted := words_append_run h hne cs []
    rwa [List.append_nil, words_nil, List.append_nil] at hparted

/-- **To replace characters is to replace them in the words**, if white space stays white space and
letters stay letters. -/
theorem words_map {f : Char → Char} (hf : ∀ c, isBlank (f c) = isBlank c) (cs : List Char) :
    words (cs.map f) = (words cs).map (List.map f) := by
  have hsame : (fun c => isBlank (f c)) = isBlank := funext hf
  unfold words
  rw [splitOnP_map, hsame, List.filter_map]
  refine congrArg _ (List.filter_congr fun piece _ => ?_)
  rw [Function.comp_apply, List.isEmpty_map]

theorem words_of_isWord {word : List Char} (h : IsWord word) : words word = [word] := by
  unfold words
  rw [List.splitOnP_eq_singleton h.not_blank]
  simp [h.ne_nil]

/-- **Joined words are the words of the text.** -/
theorem words_joined : ∀ {ws : List (List Char)}, (∀ word ∈ ws, IsWord word) →
    words ([' '].intercalate ws) = ws
  | [], _ => rfl
  | [word], h => by
    rw [List.intercalate_singleton, words_of_isWord (h word List.mem_cons_self)]
  | word :: next :: rest, h => by
    obtain ⟨hword, hrest⟩ := List.forall_mem_cons.mp h
    rw [List.intercalate_cons_cons, List.append_assoc, List.singleton_append,
      words_append_blank (by decide), words_of_isWord hword, words_joined hrest]
    rfl

/-! ## Spaced texts -/

/-- What holds of the separator and of all parts holds of every member of a join. -/
theorem forall_mem_intercalate {α : Type} {P : α → Prop} {sep : List α} (hsep : ∀ x ∈ sep, P x) :
    ∀ {parts : List (List α)}, (∀ part ∈ parts, ∀ x ∈ part, P x) →
      ∀ x ∈ sep.intercalate parts, P x
  | [], _ => fun x hx => absurd hx List.not_mem_nil
  | [part], h => by
    rw [List.intercalate_singleton]
    exact h part List.mem_cons_self
  | part :: next :: rest, h => by
    obtain ⟨hpart, hrest⟩ := List.forall_mem_cons.mp h
    rw [List.intercalate_cons_cons, List.forall_mem_append, List.forall_mem_append]
    exact ⟨⟨hpart, hsep⟩, forall_mem_intercalate hsep hrest⟩

/-- A part stands in a join as it is. -/
theorem isInfix_intercalate {α : Type} {sep part : List α} : ∀ {parts : List (List α)},
    part ∈ parts → part <:+: sep.intercalate parts
  | [first], h => by
    have hjoin : sep.intercalate [first] = part :=
      List.intercalate_singleton.trans (List.mem_singleton.mp h).symm
    exact hjoin ▸ List.infix_rfl
  | first :: next :: rest, h => by
    rw [List.intercalate_cons_cons]
    rcases List.mem_cons.mp h with rfl | h
    · exact ((List.prefix_append part sep).trans (List.prefix_append (part ++ sep) _)).isInfix
    · exact (isInfix_intercalate h).trans (List.suffix_append (first ++ sep) _).isInfix

/-- A string stands as it is where strings are joined. -/
theorem isInfix_join {part : String} {parts : List String} (h : part ∈ parts) (sep : String) :
    part.toList <:+: (sep.intercalate parts).toList := by
  rw [String.toList_intercalate]
  exact isInfix_intercalate (List.mem_map_of_mem h)

/-- What stands in a string stands in it between other strings, too. -/
theorem isInfix_between {part inner : String} (h : part.toList <:+: inner.toList)
    (opening closing behind : String) :
    part.toList <:+: (opening ++ inner ++ closing ++ behind).toList := by
  rw [String.toList_append, String.toList_append, String.toList_append]
  exact h.trans ((List.infix_append _ _ _).trans (List.prefix_append _ _).isInfix)

theorem intercalate_append {α : Type} (sep : List α) {behind : List (List α)}
    (hbehind : behind ≠ []) : ∀ {front : List (List α)}, front ≠ [] →
      sep.intercalate (front ++ behind) = sep.intercalate front ++ sep ++ sep.intercalate behind
  | [], h => absurd rfl h
  | [part], _ => by
    obtain ⟨next, rest, rfl⟩ := List.exists_cons_of_ne_nil hbehind
    rw [List.singleton_append, List.intercalate_cons_cons, List.intercalate_singleton]
  | part :: next :: rest, _ => by
    have ih := intercalate_append sep hbehind (List.cons_ne_nil next rest)
    rw [List.cons_append, List.cons_append, List.intercalate_cons_cons, ← List.cons_append, ih,
      List.intercalate_cons_cons]
    simp only [List.append_assoc]

theorem intercalate_append_last {α : Type} (sep : List α) (front : List (List α))
    (last more : List α) :
    sep.intercalate (front ++ [last ++ more]) = sep.intercalate (front ++ [last]) ++ more := by
  cases front with
  | nil => simp
  | cons part rest =>
    have hfront := List.cons_ne_nil part rest
    rw [intercalate_append sep (List.cons_ne_nil _ _) hfront,
      intercalate_append sep (List.cons_ne_nil _ _) hfront, List.intercalate_singleton,
      List.intercalate_singleton, List.append_assoc _ last more]

theorem map_intercalate {α β : Type} (f : α → β) (sep : List α) : ∀ parts : List (List α),
    (sep.intercalate parts).map f = (sep.map f).intercalate (parts.map (List.map f))
  | [] => rfl
  | [part] => by rw [List.map_singleton, List.intercalate_singleton, List.intercalate_singleton]
  | part :: next :: rest => by
    rw [List.intercalate_cons_cons, List.map_append, List.map_append,
      map_intercalate f sep (next :: rest), List.map_cons, List.map_cons, List.map_cons,
      List.intercalate_cons_cons]

/-- To join the words of a text is to space it. -/
theorem spaced_joined_words (cs : List Char) : Spaced ([' '].intercalate (words cs)) :=
  ⟨words cs, fun _ => isWord_of_mem_words, rfl⟩

/-- **A spaced text stays as it is** when its words are joined. -/
theorem joined_words_of_spaced {cs : List Char} (h : Spaced cs) :
    [' '].intercalate (words cs) = cs := by
  obtain ⟨ws, hws, rfl⟩ := h
  rw [words_joined hws]

/-- Characters may be replaced in a spaced text if spaces and words stay what they are. -/
theorem Spaced.map {f : Char → Char} (hspace : f ' ' = ' ')
    (hf : ∀ c, isBlank c = false → isBlank (f c) = false) {cs : List Char} (h : Spaced cs) :
    Spaced (cs.map f) := by
  obtain ⟨ws, hws, rfl⟩ := h
  refine ⟨ws.map (List.map f), ?_, ?_⟩
  · refine List.forall_mem_map.mpr fun word hword => ?_
    obtain ⟨hne, hletters⟩ := hws word hword
    refine ⟨fun hnil => hne (List.map_eq_nil_iff.mp hnil), ?_⟩
    exact List.forall_mem_map.mpr fun c hc => hf c (hletters c hc)
  · rw [map_intercalate, List.map_singleton, hspace]

end CardContent.Text
