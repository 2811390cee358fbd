import CardContent.Deck
import CardContent.Proofs.Outcome
import CardContent.Proofs.Text.Numeral

/-!
# The lines of a deck list

A deck list is read line by line, and a line is read without regard to the lines around it.

* `Spells entry front behind` says that a name in front of a colon and a numeral behind it are the
  ones of an entry, white space around them not counting.
* `IsLine line found?` says that a deck list may have the line, and which entry it gives. There is
  no mention of trimming in it, nor of which colon is meant: numerals have no colons in them.

Results:
* `ofChars?_eq_some_iff`: a text reads as an entry exactly if it spells the entry.
* `ofLine_eq_ok_iff`: a line is read exactly if a deck list may have it.
* `ofLines_eq_error_iff`: a list of lines fails exactly if it has a line that it may not have.
-/

set_option autoImplicit false

namespace CardContent

namespace DeckEntry

/-- A name and a numeral, on the two sides of a colon. -/
structure Spells (entry : DeckEntry) (front behind : List Char) : Prop where
  name : Text.Padded entry.name.toList front
  trimmed : Text.Trimmed entry.name.toList
  named : entry.name.toList ≠ []
  count : ∃ number, Text.Padded number behind ∧ Numeral.Unsigned number entry.count.toNat

/-- The lines that a deck list may have: blank ones, remarks and entries. -/
inductive IsLine : List Char → Option DeckEntry → Prop where
  | blank {line : List Char} (h : Text.Blank line) : IsLine line none
  | remark {before rest : List Char} (h : Text.Blank before) : IsLine (before ++ '#' :: rest) none
  | entry {entry : DeckEntry} {front behind : List Char} (h : Spells entry front behind)
      (hmark : entry.name.toList.head? ≠ some '#') :
      IsLine (front ++ ':' :: behind) (some entry)

variable {entry : DeckEntry} {front behind : List Char}

/-! ## The last colon -/

theorem ne_colon_of_not_mem {text : List Char} (h : ':' ∉ text) :
    ∀ c ∈ text.reverse, (c != ':') = true := fun _ hc =>
  bne_iff_ne.mpr fun heq => h (heq ▸ List.mem_reverse.mp hc)

/-- **The last colon** is the one with none behind it. -/
theorem splitLastColon_eq_some_iff {line : List Char} :
    splitLastColon line = some (front, behind) ↔ line = front ++ ':' :: behind ∧ ':' ∉ behind := by
  unfold splitLastColon
  constructor
  · intro h
    simp only at h
    split at h
    · cases h
    · rename_i c rest hdrop
      cases h
      have hc : c = ':' := by
        have := List.head?_dropWhile_not (· != ':') line.reverse
        rw [hdrop] at this
        simpa using this
      subst hc
      have hparts : line.reverse.takeWhile (· != ':') ++ ':' :: rest = line.reverse := by
        rw [← hdrop]
        exact List.takeWhile_append_dropWhile
      refine ⟨?_, fun hmem => ?_⟩
      · have hline := congrArg List.reverse hparts
        rw [List.reverse_append, List.reverse_cons, List.reverse_reverse,
          List.append_assoc] at hline
        exact hline.symm
      · simpa using List.mem_takeWhile_imp (List.mem_reverse.mp hmem)
  · rintro ⟨rfl, hbehind⟩
    have hreverse : (front ++ ':' :: behind).reverse = behind.reverse ++ ':' :: front.reverse := by
      simp
    have hfree := ne_colon_of_not_mem hbehind
    simp only [hreverse, List.dropWhile_append_of_pos hfree, List.takeWhile_append_of_pos hfree]
    simp

/-! ## Entries -/

theorem Spells.not_mem_behind (h : Spells entry front behind) : ':' ∉ behind := by
  obtain ⟨number, hpadded, hnumber⟩ := h.count
  have hcolon : ∀ c, Text.isBlank c = true → c ≠ ':' := by
    rintro c hc rfl
    exact absurd hc (by decide)
  have hdigit : ∀ c : Char, c.isDigit = true → c ≠ ':' := by
    rintro c hc rfl
    exact absurd hc (by decide)
  have hfree := hpadded.forall_mem hcolon (hnumber.signed.forall_mem hdigit (by decide) (by decide))
  exact fun hmem => hfree ':' hmem rfl

/-- A text reads as an entry exactly if its last colon stands between a name and a numeral. -/
theorem ofChars?_eq_some_iff_parts {line : List Char} : ofChars? line = some entry ↔
    ∃ front behind, line = front ++ ':' :: behind ∧ ':' ∉ behind ∧ ¬Text.Blank front ∧
      Numeral.Unsigned (Text.trim behind) entry.count.toNat ∧
      entry.name = String.ofList (Text.trim front) := by
  unfold ofChars?
  simp only [Option.bind_eq_bind, Option.bind_eq_some_iff, Prod.exists,
    splitLastColon_eq_some_iff, Numeral.uint32?_eq_some_iff, List.isEmpty_iff,
    Text.trim_eq_nil_iff]
  constructor
  · rintro ⟨front, behind, ⟨hline, hlast⟩, count, hcount, h⟩
    split at h
    · cases h
    · rename_i hname
      cases h
      exact ⟨front, behind, hline, hlast, hname, hcount, rfl⟩
  · rintro ⟨front, behind, hline, hlast, hname, hcount, hentry⟩
    refine ⟨front, behind, ⟨hline, hlast⟩, entry.count, hcount, ?_⟩
    rw [if_neg hname, ← hentry]
    rfl

/-- **A text reads as an entry** exactly if it spells the entry. -/
theorem ofChars?_eq_some_iff {line : List Char} : ofChars? line = some entry ↔
    ∃ front behind, line = front ++ ':' :: behind ∧ Spells entry front behind := by
  rw [ofChars?_eq_some_iff_parts]
  constructor
  · rintro ⟨front, behind, hline, -, hname, hcount, hentry⟩
    have hlist : entry.name.toList = Text.trim front := by rw [hentry, String.toList_ofList]
    refine ⟨front, behind, hline, ?_, ?_, ?_, Text.trim behind, Text.padded_trim behind, hcount⟩
    · rw [hlist]
      exact Text.padded_trim front
    · rw [hlist]
      exact Text.trimmed_trim front
    · rw [hlist]
      exact fun hnil => hname (Text.trim_eq_nil_iff.mp hnil)
  · rintro ⟨front, behind, hline, h⟩
    obtain ⟨number, hpadded, hnumber⟩ := h.count
    have hname : Text.trim front = entry.name.toList := Text.trim_of_padded h.name h.trimmed
    refine ⟨front, behind, hline, h.not_mem_behind, fun hblank => ?_, ?_, ?_⟩
    · exact h.named (hname ▸ Text.trim_eq_nil_iff.mpr hblank)
    · rwa [Text.trim_of_padded hpadded hnumber.signed.trimmed]
    · rw [hname, String.ofList_toList]

/-- White space around a text that spells an entry leaves it one. -/
theorem Spells.padded {before after : List Char} (h : Spells entry front behind)
    (hbefore : Text.Blank before) (hafter : Text.Blank after) :
    Spells entry (before ++ front) (behind ++ after) where
  name := h.name.append_left hbefore
  trimmed := h.trimmed
  named := h.named
  count := by
    obtain ⟨number, hpadded, hnumber⟩ := h.count
    exact ⟨number, hpadded.append_right hafter, hnumber⟩

/-- Trimming a line that spells an entry takes white space from its two parts, and the name comes
first then. -/
theorem Spells.trim_eq (h : Spells entry front behind) : ∃ front' behind',
    Text.trim (front ++ ':' :: behind) = front' ++ ':' :: behind' ∧ Spells entry front' behind' ∧
      (Text.trim (front ++ ':' :: behind)).head? = entry.name.toList.head? := by
  obtain ⟨before, inner, hbefore, hinner, hfront⟩ := h.name
  obtain ⟨number, ⟨inner', after, hinner', hafter, hbehind⟩, hnumber⟩ := h.count
  have hcore : Text.Trimmed ((entry.name.toList ++ inner) ++ ':' :: (inner' ++ number)) := by
    constructor
    · rw [List.append_assoc, List.head?_append_of_ne_nil _ h.named]
      exact h.trimmed.head
    · rw [List.getLast?_append_of_ne_nil _ (List.cons_ne_nil _ _), ← List.cons_append,
        List.getLast?_append_of_ne_nil _ hnumber.signed.ne_nil]
      exact hnumber.signed.trimmed.last
  have htrim : Text.trim (front ++ ':' :: behind) =
      (entry.name.toList ++ inner) ++ ':' :: (inner' ++ number) := by
    refine Text.trim_of_padded ⟨before, after, hbefore, hafter, ?_⟩ hcore
    rw [hfront, hbehind]
    simp
  refine ⟨_, _, htrim, ⟨?_, h.trimmed, h.named, number, ?_, hnumber⟩, ?_⟩
  · exact (Text.padded_refl _).append_right hinner
  · exact (Text.padded_refl _).append_left hinner'
  · rw [htrim, List.append_assoc, List.head?_append_of_ne_nil _ h.named]

/-! ## Lines -/

/-- An error of a line of a deck names the line. -/
theorem error_of_ofLine {line : String} {e : Error} (h : ofLine line = .error e) :
    e = .count (Text.trimmed line) := by
  unfold ofLine at h
  simp only at h
  split at h
  · cases h
  · split at h
    · cases h
    · cases h
      rfl

/-- **A line is read** exactly if a deck list may have it. -/
theorem ofLine_eq_ok_iff {line : String} {found? : Option DeckEntry} :
    ofLine line = .ok found? ↔ IsLine line.toList found? := by
  unfold ofLine
  constructor
  · intro h
    simp only at h
    split at h
    · rename_i hpassed
      cases h
      obtain ⟨before, after, hbefore, -, hline⟩ := Text.padded_trim line.toList
      rcases Bool.or_eq_true_iff.mp hpassed with hblank | hmark
      · exact .blank (Text.trim_eq_nil_iff.mp (List.isEmpty_iff.mp hblank))
      · obtain ⟨rest, hrest⟩ := List.head?_eq_some_iff.mp (beq_iff_eq.mp hmark)
        rw [hline, hrest, List.append_assoc]
        exact .remark hbefore
    · rename_i hpassed
      split at h
      · rename_i entry hentry
        cases h
        obtain ⟨front, behind, htrim, hspells⟩ := ofChars?_eq_some_iff.mp hentry
        obtain ⟨before, after, hbefore, hafter, hline⟩ := Text.padded_trim line.toList
        have hwhole := hspells.padded hbefore hafter
        have heq : line.toList = (before ++ front) ++ ':' :: (behind ++ after) := by
          rw [hline, htrim]
          simp
        obtain ⟨-, -, -, -, hhead⟩ := hwhole.trim_eq
        rw [heq]
        refine .entry hwhole fun hmark => hpassed ?_
        rw [heq, hhead, hmark]
        simp
      · cases h
  · intro h
    simp only
    generalize line.toList = text at h
    cases h with
    | blank h =>
      rw [Text.trim_eq_nil_iff.mpr h]
      rfl
    | @remark before rest h =>
      rw [Text.trim_blank_append h, Text.head?_trim_of_head (by decide)]
      simp
    | @entry entry front behind h hmark =>
      obtain ⟨front', behind', htrim, hspells, hhead⟩ := h.trim_eq
      have hread : ofChars? (Text.trim (front ++ ':' :: behind)) = some entry :=
        ofChars?_eq_some_iff.mpr ⟨front', behind', htrim, hspells⟩
      have hnil : (Text.trim (front ++ ':' :: behind)).isEmpty = false := by
        rw [htrim]
        simp
      rw [hread, hnil, hhead]
      simp [hmark]

end DeckEntry

/-- **A list of lines is no deck** exactly if it has a line that a deck list may not have. -/
theorem Deck.ofLines_eq_error_iff [Name.Spelling] {lines : List String} :
    (∃ e, Deck.ofLines lines = .error e) ↔
      ∃ line ∈ lines, ∀ found?, ¬DeckEntry.IsLine line.toList found? := by
  have hread : (∃ deck, Deck.ofLines lines = .ok deck) ↔
      ∃ entries?, lines.mapM DeckEntry.ofLine = .ok entries? := by
    constructor
    · rintro ⟨deck, h⟩
      obtain ⟨entries?, hentries, -⟩ := bind_eq_ok_iff.mp h
      exact ⟨entries?, hentries⟩
    · rintro ⟨entries?, h⟩
      exact ⟨_, bind_eq_ok_iff.mpr ⟨entries?, h, rfl⟩⟩
  rw [exists_eq_error_iff, hread, exists_mapM_eq_ok_iff]
  simp only [DeckEntry.ofLine_eq_ok_iff, not_forall, not_exists, exists_prop]

end CardContent
