import CardContent.Name.Table
import CardContent.Proofs.Content.Failure
import CardContent.Proofs.Csv.Written
import Mathlib

/-!
# Line ends do not matter

Content may be written with either of the usual line ends. `withReturns text` is `text` with a
carriage return put in front of every line feed, whatever carriage returns it had.

The two readers take this in for different reasons. Lines lose all carriage returns at their end, so
one more is lost with them. A table has no lines: a carriage return ends a record, and the line feed
behind it stands in front of the next one, where line ends are passed over. Between quotes it would
belong to the field, so a table must be without quotes.

Results:
* `lines_withReturns`: the lines of a text are the same.
* `ofText_withReturns`: the table of a text without quotes is the same.
* `decode_of_relined`: what is decoded is the same, down to errors and events, whichever texts are
  rewritten.
-/

set_option autoImplicit false

namespace CardContent

namespace Text

/-- A carriage return in front of every line feed. -/
def returned (cs : List Char) : List Char :=
  cs.flatMap fun c => if c = '\n' then ['\r', '\n'] else [c]

/-- `returned` on strings. -/
def withReturns (text : String) : String :=
  String.ofList (returned text.toList)

theorem returned_feed (cs : List Char) : returned ('\n' :: cs) = '\r' :: '\n' :: returned cs := rfl

theorem returned_cons {c : Char} (hc : c ≠ '\n') (cs : List Char) :
    returned (c :: cs) = c :: returned cs := by
  rw [returned, List.flatMap_cons, if_neg hc]
  rfl

theorem toList_withReturns (text : String) : (withReturns text).toList = returned text.toList :=
  String.toList_ofList

/-! ## Lines -/

/-- What is left of a piece behind one more character is known from what is left of the piece. -/
theorem stripReturns_cons_congr {piece piece' : List Char}
    (h : stripReturns piece = stripReturns piece') (c : Char) :
    stripReturns (c :: piece) = stripReturns (c :: piece') := by
  have hcons : ∀ cs, stripReturns (c :: cs) =
      if stripReturns cs = [] ∧ c = '\r' then [] else c :: stripReturns cs := by
    intro cs
    unfold stripReturns dropEndWhile
    rw [List.reverse_cons, List.dropWhile_append]
    by_cases hcs : cs.reverse.dropWhile (fun c => c == '\r') = []
    · by_cases hc : c = '\r' <;> simp [hcs, hc]
    · simp [hcs]
  rw [hcons, hcons, h]

/-- **The pieces between line feeds** differ in the carriage returns at their ends only. -/
theorem map_stripReturns_returned : ∀ cs : List Char,
    ((returned cs).splitOn '\n').map stripReturns = (cs.splitOn '\n').map stripReturns
  | [] => rfl
  | c :: cs => by
    have ih := map_stripReturns_returned cs
    by_cases hc : c = '\n'
    · subst hc
      -- the piece in front of the line feed is a carriage return now
      have hpiece : ((returned ('\n' :: cs)).splitOn '\n') =
          ['\r'] :: (returned cs).splitOn '\n' := by
        have hreturn : '\n' ∉ ['\r'] := by decide
        exact List.splitOn_append_cons_self_of_not_mem hreturn (returned cs)
      have hline : ('\n' :: cs).splitOn '\n' = [] :: cs.splitOn '\n' := by
        have hempty : '\n' ∉ ([] : List Char) := List.not_mem_nil
        exact List.splitOn_append_cons_self_of_not_mem hempty cs
      rw [hpiece, hline, List.map_cons, List.map_cons, ih]
      rfl
    · have hne : ¬(c == '\n') = true := by simpa using hc
      rw [returned_cons hc, List.splitOn_cons_eq_if_modifyHead, List.splitOn_cons_eq_if_modifyHead,
        if_neg hne, if_neg hne]
      cases hpieces : (returned cs).splitOn '\n' with
      | nil => exact absurd hpieces (List.splitOn_ne_nil _ _)
      | cons piece pieces =>
        cases hlines : cs.splitOn '\n' with
        | nil => exact absurd hlines (List.splitOn_ne_nil _ _)
        | cons line rest =>
          rw [hpieces, hlines, List.map_cons, List.map_cons] at ih
          obtain ⟨hhead, htail⟩ := List.cons.inj ih
          rw [List.modifyHead_cons, List.modifyHead_cons, List.map_cons, List.map_cons, htail,
            stripReturns_cons_congr hhead]

/-- **The lines of a text** are the same with either line end. -/
theorem lines_withReturns (text : String) : lines (withReturns text) = lines text := by
  rw [lines_eq, lines_eq, toList_withReturns, map_stripReturns_returned]

end Text

/-! ## Tables -/

namespace Csv

namespace Scan

variable {s : Scan Char}

/-- Only a quote opens quotes. -/
theorem step_unquoted {m : Mark} (hm : m ≠ .quote) (h : s.mode ≠ .quoted) (x : Char) :
    (s.step m x).mode ≠ .quoted := by
  cases m with
  | comma =>
    rw [step_comma h]
    exact Mode.noConfusion
  | quote => exact absurd rfl hm
  | lineEnd =>
    by_cases hstart : s.mode = .recordStart
    · obtain ⟨mode, field, fields, records⟩ := s
      obtain rfl : mode = .recordStart := hstart
      exact Mode.noConfusion
    · rw [step_lineEnd h hstart]
      exact Mode.noConfusion
  | plain =>
    rw [step_plain h]
    exact Mode.noConfusion

/-- **Of two line ends the second is passed over.** -/
theorem step_lineEnd_twice (h : s.mode ≠ .quoted) (x y : Char) :
    (s.step .lineEnd x).step .lineEnd y = s.step .lineEnd y := by
  by_cases hstart : s.mode = .recordStart
  · obtain ⟨mode, field, fields, records⟩ := s
    obtain rfl : mode = .recordStart := hstart
    rfl
  · rw [step_lineEnd h hstart, step_lineEnd h hstart]
    rfl

/-- **Outside quotes a text is scanned alike** with either line end. -/
theorem run_returned : ∀ (cs : List Char) {s : Scan Char}, '"' ∉ cs → s.mode ≠ .quoted →
    s.run charMark (Text.returned cs) = s.run charMark cs
  | [], _, _, _ => rfl
  | c :: cs, s, hquote, hs => by
    obtain ⟨hc, hcs⟩ := not_or.mp (mt List.mem_cons.mpr hquote)
    have hmark : charMark c ≠ .quote := fun hm => hc (charMark_eq_quote_iff.mp hm).symm
    have hrest := run_returned cs hcs (step_unquoted hmark hs c)
    by_cases hfeed : c = '\n'
    · subst hfeed
      rw [Text.returned_feed, run_cons, run_cons, run_cons, ← hrest]
      congr 1
      exact step_lineEnd_twice hs '\r' '\n'
    · rw [Text.returned_cons hfeed, run_cons, run_cons, hrest]

end Scan

theorem dropCharMark_returned (cs : List Char) :
    dropCharMark (Text.returned cs) = Text.returned (dropCharMark cs) := by
  by_cases hmark : cs.head? = some '\uFEFF'
  · obtain ⟨rest, rfl⟩ := List.head?_eq_some_iff.mp hmark
    rfl
  · rw [dropCharMark_of_head hmark, dropCharMark_of_head]
    cases cs with
    | nil => exact hmark
    | cons c cs =>
      by_cases hc : c = '\n'
      · subst hc
        rw [Text.returned_feed, List.head?_cons]
        decide
      · rw [Text.returned_cons hc]
        exact hmark

theorem mem_of_mem_dropCharMark {c : Char} {cs : List Char} (h : c ∈ dropCharMark cs) : c ∈ cs := by
  unfold dropCharMark at h
  split at h
  · exact List.mem_cons_of_mem _ h
  · exact h

/-- **The table of a text without quotes** is the same with either line end. -/
theorem ofText_withReturns {text : String} (h : '"' ∉ text.toList) :
    ofText (Text.withReturns text) = ofText text := by
  have hquote : '"' ∉ dropCharMark text.toList := fun hmem => h (mem_of_mem_dropCharMark hmem)
  unfold ofText records
  rw [Text.toList_withReturns, dropCharMark_returned, Scan.run_returned _ hquote Mode.noConfusion]

end Csv

/-! ## Content -/

/-- Texts of which those that `changed` names are written with carriage returns. -/
def Source.relined (textOf : String → Option String) (changed : String → Bool) :
    String → Option String :=
  fun name => if changed name then (textOf name).map Text.withReturns else textOf name

namespace Source

variable {textOf : String → Option String}

theorem lines_relined (textOf : String → Option String) (changed : String → Bool) (name : String) :
    (memory (relined textOf changed)).lines name = (memory textOf).lines name := by
  unfold memory relined
  by_cases hname : changed name
  · cases htext : textOf name with
    | none => simp [hname, htext]
    | some text => simp [hname, htext, Text.lines_withReturns]
  · simp [hname]

theorem rows_relined {name : String} (h : ∀ text, textOf name = some text → '"' ∉ text.toList)
    (changed : String → Bool) :
    (memory (relined textOf changed)).rows name = (memory textOf).rows name := by
  unfold memory relined
  by_cases hname : changed name
  · cases htext : textOf name with
    | none => simp [hname, htext]
    | some text => simp [hname, htext, Csv.ofText_withReturns (h text htext)]
  · simp [hname]

end Source

namespace Content

/-- **Line ends do not matter.** If the tables of cards are without quotes, then whichever of the
texts are written with a carriage return in front of every line feed, the same content is decoded
and the same deck is read, or it fails with the same error. -/
theorem decode_of_relined [Name.Spelling] (textOf : String → Option String)
    (changed : String → Bool)
    (hquotes : ∀ kind text, textOf (Resource.cards kind).name = some text → '"' ∉ text.toList) :
    decode (.memory (Source.relined textOf changed)) = decode (.memory textOf) ∧
      Deck.read (.memory (Source.relined textOf changed)) = Deck.read (.memory textOf) := by
  constructor
  · exact decode_congr (Source.lines_relined textOf changed _)
      fun kind => Source.rows_relined (hquotes kind) changed
  · unfold Deck.read
    rw [Source.lines_relined textOf changed]

section Example

open scoped Name.Table

/-- Texts with all kinds of line ends: the second row of cards has no name and no number for its
honor. -/
def unevenTexts : String → Option String
  | "effects.txt" => some "Gain 1 rune.\r\n\r\nDraw a card.\r\r\n\n"
  | "acquirable.csv" => some "Mystic,3,1,Hero,1(2)\n\r\n,2,many,Hero,3()\r"
  | "defeatable.csv" => some "\n"
  | "counts.txt" => some "Apprentice: 8\r\n\n# rest\nMilitia: 2"
  | _ => none

theorem decode_of_relined_uneven :
    (∀ kind text, unevenTexts (Resource.cards kind).name = some text → '"' ∉ text.toList) ∧
      Source.relined unevenTexts (fun _ => true) "acquirable.csv" =
        some "Mystic,3,1,Hero,1(2)\r\n\r\r\n,2,many,Hero,3()\r" ∧
      (decode (.memory (Source.relined unevenTexts fun _ => true))).outcome =
        .error (.row "row 2" (.honorNotInteger "many")) ∧
      (Deck.read (.memory (Source.relined unevenTexts fun _ => true))).outcome =
        .ok (.ofEntries [⟨"Apprentice", 8⟩, ⟨"Militia", 2⟩]) := by
  have hquotes : ∀ kind text, unevenTexts (Resource.cards kind).name = some text →
      '"' ∉ text.toList := by
    intro kind text htext
    cases kind <;> (cases htext; decide)
  obtain ⟨hdecode, hdeck⟩ := decode_of_relined unevenTexts (fun _ => true) hquotes
  refine ⟨hquotes, by decide, ?_, ?_⟩
  · rw [hdecode]
    cbv
  · have hlines : Text.lines "Apprentice: 8\r\n\n# rest\nMilitia: 2" =
        ["Apprentice: 8", "", "# rest", "Militia: 2"] := by decide
    have hentries : ["Apprentice: 8", "", "# rest", "Militia: 2"].mapM DeckEntry.ofLine =
        .ok [some ⟨"Apprentice", 8⟩, none, none, some ⟨"Militia", 2⟩] := rfl
    have hread : ((Source.memory unevenTexts).lines Resource.counts.name).outcome =
        .ok ["Apprentice: 8", "", "# rest", "Militia: 2"] := congrArg Except.ok hlines
    rw [hdeck, Deck.outcome_read, hread]
    exact bind_eq_ok_iff.mpr ⟨_, rfl, bind_eq_ok_iff.mpr ⟨_, hentries, rfl⟩⟩

end Example

end Content

end CardContent
