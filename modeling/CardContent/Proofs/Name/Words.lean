import CardContent.Proofs.Name.Table

/-!
# Names are looked up word by word

White space of ASCII between two names stands for one space between their keys, and case does not
count. Behind a character that is not ASCII this holds of spaces only: a tab or a line feed is
spelled as nothing there, as all controls are, and joins the texts on its two sides.

* `Gap w` is a run of white space of ASCII.
* `pieces name` are the parts of a name between such runs, and `Alike a b` says that two names have
  the same pieces up to case.
* `quiet name` is what the spelling of a name leaves of its controls: those in its ASCII beginning.

Results:
* `keyWords_append_gap`: the words of two texts with white space between them.
* `keyWords_eq_pieceWords`: the words of a name follow from its pieces, if white space behind other
  characters than ASCII is made of spaces.
* `keyWords_quiet`: a name without the controls that are spelled as nothing has the same words.
* `key_word_by_word`: keys of names made of parts, and of names that are alike.
* `key_joins_behind_accent`: a tab behind an accented letter joins what it should keep apart.
-/

set_option autoImplicit false

namespace CardContent.Name

open CardContent.Text

/-! ## White space of ASCII -/

/-- Whether a character is white space of ASCII. -/
def isGap (c : Char) : Bool :=
  c == ' ' || (0x09 ≤ c.toNat && c.toNat ≤ 0x0D)

/-- A run of white space of ASCII. -/
structure Gap (w : String) : Prop where
  ne_nil : w.toList ≠ []
  gap : ∀ c ∈ w.toList, isGap c = true

instance (w : String) : Decidable (Gap w) :=
  decidable_of_iff (w.toList ≠ [] ∧ w.toList.all isGap = true)
    ⟨fun h => ⟨h.1, List.all_eq_true.mp h.2⟩, fun h => ⟨h.ne_nil, List.all_eq_true.mpr h.gap⟩⟩

theorem eq_space_or_of_isGap {c : Char} (h : isGap c = true) :
    c = ' ' ∨ 0x09 ≤ c.toNat ∧ c.toNat ≤ 0x0D := by
  rcases Bool.or_eq_true_iff.mp h with hspace | hcodes
  · exact .inl (beq_iff_eq.mp hspace)
  · obtain ⟨hlow, hhigh⟩ := Bool.and_eq_true_iff.mp hcodes
    exact .inr ⟨of_decide_eq_true hlow, of_decide_eq_true hhigh⟩

theorem isPlain_of_isGap {c : Char} (h : isGap c = true) : isPlain c = true := by
  rcases eq_space_or_of_isGap h with rfl | ⟨-, hhigh⟩
  · rfl
  · exact decide_eq_true (by omega)

theorem isBlank_of_isGap {c : Char} (h : isGap c = true) : isBlank c = true := by
  rcases eq_space_or_of_isGap h with rfl | ⟨hlow, hhigh⟩
  · rfl
  · exact List.any_eq_true.mpr ⟨(0x09, 0x0D), List.mem_cons_self,
      Bool.and_eq_true_iff.mpr ⟨decide_eq_true hlow, decide_eq_true hhigh⟩⟩

theorem blank_of_gap {run : List Char} (h : ∀ c ∈ run, isGap c = true) : Blank run :=
  fun c hc => isBlank_of_isGap (h c hc)

theorem all_isPlain_of_gap {run : List Char} (h : ∀ c ∈ run, isGap c = true) :
    run.all isPlain = true :=
  List.all_eq_true.mpr fun c hc => isPlain_of_isGap (h c hc)

/-! ## Names that are alike -/

/-- The parts of a name between white space of ASCII. -/
def pieces (name : String) : List (List Char) :=
  (name.toList.splitOnP isGap).filter fun piece => !piece.isEmpty

/-- Names that differ in nothing but the case of ASCII letters and the white space of ASCII between
their parts and at their ends. -/
def Alike (a b : String) : Prop :=
  (pieces a).map (List.map Char.toLower) = (pieces b).map (List.map Char.toLower)

instance (a b : String) : Decidable (Alike a b) :=
  inferInstanceAs (Decidable ((pieces a).map (List.map Char.toLower) = _))

/-- A name without the controls that stand behind a character that is not ASCII. -/
def quiet (name : String) : String :=
  String.ofList (name.toList.takeWhile isPlain ++
    (name.toList.dropWhile isPlain).filter fun c => 0x20 ≤ c.toNat)

namespace Spelling

section Regular

variable {spelling : Spelling}

/-! ## Between two names -/

/-- Behind other characters than ASCII, the spaces are what is left of white space of ASCII. -/
theorem Regular.spellOut_gap (h : spelling.Regular) {run : List Char}
    (hrun : ∀ c ∈ run, isGap c = true) :
    spelling.spellOut false run = run.filter (· == ' ') := by
  induction run with
  | nil => rfl
  | cons c rest ih =>
    obtain ⟨hc, hrest⟩ := List.forall_mem_cons.mp hrun
    rw [spellOut_false_cons, ih hrest]
    rcases eq_space_or_of_isGap hc with rfl | ⟨-, hhigh⟩
    · rw [h.printable ' ' rfl (by decide)]
      rfl
    · have hspace : ¬((c == ' ') = true) := by
        intro heq
        rw [beq_iff_eq.mp heq] at hhigh
        exact absurd hhigh (by decide)
      rw [h.control c (by omega), List.filter_cons, if_neg hspace, List.nil_append]

/-- **White space of ASCII between two texts** keeps their words apart behind ASCII, and elsewhere
if there is a space in it. -/
theorem Regular.keyWords_append_gap (h : spelling.Regular) {run : List Char}
    (hrun : ∀ c ∈ run, isGap c = true) (hne : run ≠ []) (plain : Bool) (front behind : List Char)
    (hspace : (plain && front.all isPlain) = true ∨ ' ' ∈ run) :
    spelling.keyWords plain (front ++ (run ++ behind)) =
      spelling.keyWords plain front ++
        spelling.keyWords (plain && front.all isPlain) behind := by
  have hspelled : spelling.spellOut (plain && front.all isPlain) run ≠ [] := by
    cases hplain : plain && front.all isPlain with
    | true =>
      rw [spelling.spellOut_of_plain (all_isPlain_of_gap hrun)]
      exact hne
    | false =>
      have hmem : ' ' ∈ run := hspace.resolve_left (Bool.eq_false_iff.mp hplain)
      rw [h.spellOut_gap hrun]
      exact List.ne_nil_of_mem (List.mem_filter.mpr ⟨hmem, rfl⟩)
  rw [h.keyWords_append_run (blank_of_gap hrun) plain front behind hspelled,
    all_isPlain_of_gap hrun, Bool.and_true]

theorem toList_between (a w b : String) :
    (a ++ w ++ b).toList = a.toList ++ (w.toList ++ b.toList) := by
  rw [String.toList_append, String.toList_append, List.append_assoc]

theorem Regular.key_behind_ascii (h : spelling.Regular) {a w b : String} (hw : Gap w)
    (ha : isAscii a = true) :
    spelling.key (a ++ w ++ b) = beside (spelling.key a) (spelling.key b) := by
  have hplain : (true && a.toList.all isPlain) = true := ha
  refine spelling.key_eq_beside ?_
  rw [toList_between, h.keyWords_append_gap hw.gap hw.ne_nil true _ _ (.inl hplain), hplain]

theorem Regular.key_behind_space (h : spelling.Regular) {a w b : String} (hw : Gap w)
    (ha : isAscii a = false) (hspace : ' ' ∈ w.toList) :
    spelling.key (a ++ w ++ b) = beside (spelling.key a) (spelling.key (withoutControls b)) := by
  have hplain : (true && a.toList.all isPlain) = false := ha
  refine spelling.key_eq_beside ?_
  rw [toList_between, h.keyWords_append_gap hw.gap hw.ne_nil true _ _ (.inr hspace), hplain,
    h.keyWords_withoutControls]

/-- Other white space than spaces joins what stands in front of it with what stands behind it. -/
theorem Regular.key_behind_controls (h : spelling.Regular) {a w b : String} (hw : Gap w)
    (ha : isAscii a = false) (hspace : ' ' ∉ w.toList) :
    spelling.key (a ++ w ++ b) = spelling.key (a ++ withoutControls b) := by
  have hplain : (true && a.toList.all isPlain) = false := ha
  have hrun : spelling.spellOut false w.toList = [] := by
    rw [h.spellOut_gap hw.gap, List.filter_eq_nil_iff]
    rintro c hc heq
    exact hspace (beq_iff_eq.mp heq ▸ hc)
  refine spelling.key_eq_of_keyWords_eq ?_
  rw [toList_between, String.toList_append, withoutControls, String.toList_ofList, keyWords,
    keyWords, spellOut_append _ true a.toList, spellOut_append _ true a.toList, hplain,
    spellOut_append _ false w.toList, hrun, Bool.false_and, List.nil_append,
    h.spellOut_withoutControls]

/-! ## Pieces -/

/-- White space of ASCII behind other characters than ASCII is made of spaces. -/
def Settled (plain : Bool) (text : List Char) : Prop :=
  ∀ front c behind, text = front ++ c :: behind → isGap c = true →
    (plain && front.all isPlain) = true ∨ c = ' '

/-- The words of pieces one after the other. -/
def pieceWords (spelling : Spelling) (plain : Bool) : List (List Char) → List (List Char)
  | [] => []
  | piece :: rest =>
    spelling.keyWords plain piece ++ pieceWords spelling (plain && piece.all isPlain) rest

theorem pieceWords_filter (plain : Bool) (parts : List (List Char)) :
    spelling.pieceWords plain (parts.filter fun piece => !piece.isEmpty) =
      spelling.pieceWords plain parts := by
  induction parts generalizing plain with
  | nil => rfl
  | cons piece rest ih =>
    cases piece with
    | nil =>
      rw [List.filter_cons_of_neg (by simp), pieceWords, List.all_nil, Bool.and_true, ih]
      rfl
    | cons c cs =>
      rw [List.filter_cons_of_pos rfl, pieceWords, pieceWords, ih]

theorem Regular.pieceWords_map_toLower (h : spelling.Regular) (plain : Bool)
    (parts : List (List Char)) :
    spelling.pieceWords plain (parts.map (List.map Char.toLower)) =
      spelling.pieceWords plain parts := by
  induction parts generalizing plain with
  | nil => rfl
  | cons piece rest ih =>
    have hall : (piece.map Char.toLower).all isPlain = piece.all isPlain := by
      rw [List.all_map]
      exact congrArg piece.all (funext isPlain_toLower_eq)
    rw [List.map_cons, pieceWords, pieceWords, h.keyWords_map_toLower, hall, ih]

theorem Settled.behind {plain : Bool} {front behind : List Char} {c : Char}
    (h : Settled plain (front ++ c :: behind)) (hc : isGap c = true) :
    Settled (plain && front.all isPlain) behind := by
  intro front' c' behind' hbehind hc'
  have hwhole := h (front ++ c :: front') c' behind' (by rw [hbehind]; simp) hc'
  rwa [List.all_append, List.all_cons, isPlain_of_isGap hc, Bool.true_and, ← Bool.and_assoc]
    at hwhole

/-- **The words of a name follow from its pieces**: each has its words, whatever white space of
ASCII is between them. -/
theorem Regular.keyWords_eq_pieceWords (h : spelling.Regular) (plain : Bool) (text : List Char)
    (hsettled : Settled plain text) :
    spelling.keyWords plain text = spelling.pieceWords plain (text.splitOnP isGap) := by
  -- the text is taken apart at its first white space, so the induction is on its length
  induction hlength : text.length using Nat.strong_induction_on generalizing plain text with
  | _ n ih =>
    cases hfirst : text.find? isGap with
    | none =>
      have hfree : ∀ c ∈ text, isGap c = false := fun c hc =>
        Bool.eq_false_iff.mpr (List.find?_eq_none.mp hfirst c hc)
      rw [List.splitOnP_eq_singleton hfree, pieceWords, pieceWords, List.append_nil]
    | some c =>
      obtain ⟨hc, front, behind, rfl, hfront⟩ := List.find?_eq_some_iff_append.mp hfirst
      have hfree : ∀ x ∈ front, isGap x = false := fun x hx => by simpa using hfront x hx
      have hshort : behind.length < n := by
        rw [← hlength, List.length_append, List.length_cons]
        omega
      have hspace : (plain && front.all isPlain) = true ∨ ' ' ∈ [c] :=
        (hsettled front c behind rfl hc).imp id fun heq => List.mem_singleton.mpr heq.symm
      have hwords := h.keyWords_append_gap (List.forall_mem_singleton.mpr hc)
        (List.cons_ne_nil c []) plain front behind hspace
      rw [List.singleton_append] at hwords
      rw [hwords, List.splitOnP_append_cons_of_forall_mem hfree c hc, pieceWords,
        ih behind.length hshort _ _ (hsettled.behind hc) rfl]

theorem settled_quiet (name : String) : Settled true (quiet name).toList := by
  intro front c behind hname hc
  rw [quiet, String.toList_ofList, List.append_eq_append_iff] at hname
  rcases hname with ⟨more, hfront, hbehind⟩ | ⟨more, hfront, hbehind⟩
  · refine .inr ((eq_space_or_of_isGap hc).resolve_right fun hcodes => ?_)
    have hmem : c ∈ (name.toList.dropWhile isPlain).filter fun c => 0x20 ≤ c.toNat := by
      rw [hbehind]
      exact List.mem_append_right _ List.mem_cons_self
    have hcode : 0x20 ≤ c.toNat := of_decide_eq_true (List.mem_filter.mp hmem).2
    omega
  · refine .inl (List.all_eq_true.mpr fun x hx => ?_)
    have hmem : x ∈ name.toList.takeWhile isPlain := hfront ▸ List.mem_append_left _ hx
    exact List.mem_takeWhile_imp hmem

/-- **A name without the controls that are spelled as nothing** has the same words. -/
theorem Regular.keyWords_quiet (h : spelling.Regular) (name : String) :
    spelling.keyWords true (quiet name).toList = spelling.keyWords true name.toList := by
  have hplain : (name.toList.takeWhile isPlain).all isPlain = true :=
    List.all_eq_true.mpr fun c hc => List.mem_takeWhile_imp hc
  rw [keyWords, keyWords, quiet, String.toList_ofList, spellOut_append, hplain,
    spelling.spellOut_of_plain hplain, h.spellOut_withoutControls, spellOut_true]

theorem Regular.keyWords_eq_of_alike (h : spelling.Regular) {a b : String}
    (hab : Alike (quiet a) (quiet b)) :
    spelling.keyWords true a.toList = spelling.keyWords true b.toList := by
  have hpieces : ∀ name : String, spelling.keyWords true name.toList =
      spelling.pieceWords true ((pieces (quiet name)).map (List.map Char.toLower)) := fun name => by
    rw [h.pieceWords_map_toLower, pieces, pieceWords_filter,
      ← h.keyWords_eq_pieceWords true _ (settled_quiet name), h.keyWords_quiet]
  rw [hpieces a, hpieces b, show (pieces (quiet a)).map _ = _ from hab]

/-! ## Word by word -/

/-- How keys of names that are made of parts, or that are alike, go together. -/
structure WordByWord (spelling : Spelling) : Prop where
  /-- White space of ASCII between two names stands for one space between their keys: behind ASCII,
  and wherever there is a space in it and no control in the ASCII beginning of the second name. -/
  between : ∀ {a w b : String}, Gap w → isAscii a = true ∨ ' ' ∈ w.toList ∧ Calm b →
    spelling.key (a ++ w ++ b) = beside (spelling.key a) (spelling.key b)
  /-- Behind other characters than ASCII, controls are nothing, and white space without a space in
  it is controls only. -/
  behind : ∀ {a w b : String}, Gap w → isAscii a = false →
    spelling.key (a ++ w ++ b) =
      if ' ' ∈ w.toList then beside (spelling.key a) (spelling.key (withoutControls b))
      else spelling.key (a ++ withoutControls b)
  /-- The case of ASCII letters does not count. -/
  caseless : ∀ {a b : String}, a.toList.map Char.toLower = b.toList.map Char.toLower →
    spelling.key a = spelling.key b
  /-- Names have the same key if they are alike once the controls are gone that are spelled as
  nothing. -/
  alike : ∀ {a b : String}, Alike (quiet a) (quiet b) → spelling.key a = spelling.key b

theorem Regular.key_between (h : spelling.Regular) {a w b : String} (hw : Gap w)
    (hplace : isAscii a = true ∨ ' ' ∈ w.toList ∧ Calm b) :
    spelling.key (a ++ w ++ b) = beside (spelling.key a) (spelling.key b) := by
  cases ha : isAscii a with
  | true => exact h.key_behind_ascii hw ha
  | false =>
    obtain ⟨hspace, hcalm⟩ := hplace.resolve_left (Bool.eq_false_iff.mp ha)
    rw [h.key_behind_space hw ha hspace, h.key_withoutControls hcalm]

theorem Regular.key_behind (h : spelling.Regular) {a w b : String} (hw : Gap w)
    (ha : isAscii a = false) : spelling.key (a ++ w ++ b) =
      if ' ' ∈ w.toList then beside (spelling.key a) (spelling.key (withoutControls b))
      else spelling.key (a ++ withoutControls b) := by
  split
  · rename_i hspace
    exact h.key_behind_space hw ha hspace
  · rename_i hspace
    exact h.key_behind_controls hw ha hspace

theorem Regular.key_eq_of_lower_eq (h : spelling.Regular) {a b : String}
    (hab : a.toList.map Char.toLower = b.toList.map Char.toLower) :
    spelling.key a = spelling.key b := by
  refine spelling.key_eq_of_keyWords_eq ?_
  rw [← h.keyWords_map_toLower true a.toList, hab, h.keyWords_map_toLower]

theorem Regular.key_eq_of_alike (h : spelling.Regular) {a b : String}
    (hab : Alike (quiet a) (quiet b)) : spelling.key a = spelling.key b :=
  spelling.key_eq_of_keyWords_eq (h.keyWords_eq_of_alike hab)

/-- **Names are looked up word by word**, whatever the regular spelling: white space of ASCII
between names is a space between their keys and case does not count, as far as no control stands
behind a character that is not ASCII. Names that are alike find the same entry in whatever is filed
under keys, the same card and the same number of copies. -/
theorem key_word_by_word (spelling : Spelling) (h : spelling.Regular) :
    WordByWord spelling ∧
      (∀ (α : Type) (r : Roster α) (a b : String), Alike (quiet a) (quiet b) →
        r.find? (spelling.key a) = r.find? (spelling.key b) ∧
          r.contains (spelling.key a) = r.contains (spelling.key b)) ∧
      ∀ a b : String, Alike (quiet a) (quiet b) → FindSame a b := by
  refine ⟨⟨h.key_between, h.key_behind, h.key_eq_of_lower_eq, h.key_eq_of_alike⟩, ?_, ?_⟩
  · intro α r a b hab
    rw [h.key_eq_of_alike hab]
    exact ⟨rfl, rfl⟩
  · intro a b hab
    exact findSame_of_key_eq (h.key_eq_of_alike hab)

end Regular

section Example

open scoped Table

/-- A name with an accent, with more white space than it needs and in other letters. -/
theorem key_of_seer : standard.Regular ∧
    Name.key ("Séer" ++ " \t " ++ "of the Path") = "seer of the path" ∧
    ∀ deck : Deck, deck.copies " SéER  of the Path" = deck.copies "séer of THE   Path " := by
  obtain ⟨hwords, -, halike⟩ := key_word_by_word standard regular_standard
  have hgap : Gap " \t " := by decide
  refine ⟨regular_standard, ?_, (halike _ _ (by decide +kernel)).copies⟩
  show standard.key _ = _
  rw [hwords.between hgap (.inr ⟨by decide, by decide +kernel⟩)]
  decide +kernel

/-- **A tab behind an accented letter joins** what it should keep apart. -/
theorem key_joins_behind_accent : ¬∀ a w b : String, Gap w →
    Name.key (a ++ w ++ b) = beside (Name.key a) (Name.key b) := by
  intro hall
  have hjoined := hall "é" "\t" "b" (by decide)
  revert hjoined
  decide +kernel

end Example

end Spelling

end CardContent.Name
