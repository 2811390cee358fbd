import CardContent.Name.Table
import CardContent.Proofs.Content.Decode
import CardContent.Proofs.Csv.Written
import CardContent.Proofs.Effect.Printing
import Mathlib

/-!
# Written content is decoded

A card is written as a row: its leading columns, and then either the token of its effect or, if the
effect is all of several parts, the token of each part. Every field of a row is quoted, so names may
hold commas, quotes and line ends; only white space at the ends of a field is lost.

Results:
* `ofRow_of_written`: the row of a card is the card, if its effect is resolved.
* `rows_of_writtenTable`: the table of written cards has exactly their rows.
* `decode_of_written`: descriptions and cards that are written to texts are decoded from them.
-/

set_option autoImplicit false

namespace CardContent

/-! ## Rows -/

namespace Card

variable {card : Card} {row : Csv.Row}

/-- The columns in front of the effects of a card, as they are written. -/
def leadingColumns (card : Card) : List String :=
  match card.role with
  | .acquirable honor => [card.name, card.cost.text, Numeral.intText honor.toInt, card.type]
  | .defeatable => [card.name, card.cost.text, card.type]

/-- The rows that a card can be written as. -/
def Written (card : Card) (row : Csv.Row) : Prop :=
  ∃ es, Joint es card.effect ∧ row = card.leadingColumns ++ es.map Effect.token

/-- The texts of a card have no white space at their ends. -/
structure Tidy (card : Card) : Prop where
  name : Text.Trimmed card.name.toList
  cost : Text.Trimmed card.cost.text.toList
  type : Text.Trimmed card.type.toList

theorem leading_leadingColumns (card : Card) : Leading card card.leadingColumns := by
  unfold leadingColumns
  cases hrole : card.role with
  | acquirable honor => exact .acquirable hrole (Numeral.signed_intText honor.toInt)
  | defeatable => exact .defeatable hrole

/-- The numeral of the honor is trimmed by itself. -/
theorem trimmed_of_leading (htidy : Tidy card) {columns : List String}
    (h : Leading card columns) : ∀ column ∈ columns, Text.Trimmed column.toList := by
  cases h with
  | acquirable _ hnumeral => simp [htidy.name, htidy.cost, htidy.type, hnumeral.trimmed]
  | defeatable => simp [htidy.name, htidy.cost, htidy.type]

/-- A table keeps the row of a card. -/
theorem kept_of_written (htidy : Tidy card) (h : Written card row) : Csv.Kept row := by
  obtain ⟨es, hjoint, rfl⟩ := h
  constructor
  · refine List.forall_mem_append.mpr ⟨trimmed_of_leading htidy (leading_leadingColumns card), ?_⟩
    refine List.forall_mem_map.mpr fun e _ => ?_
    rw [Effect.token, String.toList_ofList]
    exact Effect.trimmed_tokenChars e
  · obtain ⟨e, he⟩ := List.exists_mem_of_ne_nil es hjoint.ne_nil
    exact ⟨e.token, List.mem_append_right _ (List.mem_map_of_mem he), Effect.token_ne_empty e⟩

/-- **The row of a card is the card** if its effect is resolved. -/
theorem ofRow_of_written {catalog : Catalog} {place : Option Nat} (h : Written card row)
    (hresolved : Effect.Resolved catalog card.effect) :
    ofRow card.kind catalog place row = .ok card := by
  obtain ⟨es, hjoint, rfl⟩ := h
  refine ofRow_eq_ok_iff.mpr ⟨rfl, card.leadingColumns, es.map Effect.token,
    leading_leadingColumns card, rfl, ?_⟩
  have hparts := hjoint.resolved_iff.mp hresolved
  exact effectOfColumns_eq_ok_iff.mpr ⟨es, Effect.parseAll_tokens hparts, hjoint⟩

/-! ## Tables -/

/-- A text of the table of these cards: a record for each, with every field quoted. -/
def WrittenTable (cards : List Card) (text : String) : Prop :=
  ∃ rows, List.Forall₂ Written cards rows ∧
    Text.Joined Csv.recordEnds (rows.map fun row => Csv.quotedRecord (row.map String.toList))
      text.toList

/-- **The rows of written cards are read back.** -/
theorem rows_of_writtenTable {cards : List Card} {text : String} (h : WrittenTable cards text)
    (htidy : ∀ card ∈ cards, Tidy card) : List.Forall₂ Written cards (Csv.ofText text) := by
  obtain ⟨rows, hwritten, htext⟩ := h
  have hkept : ∀ row ∈ rows, Csv.Kept row := by
    clear htext
    induction hwritten with
    | nil => exact fun row hrow => absurd hrow List.not_mem_nil
    | cons hrow _ ih =>
      obtain ⟨hcard, hrest⟩ := List.forall_mem_cons.mp htidy
      exact List.forall_mem_cons.mpr ⟨kept_of_written hcard hrow, ih hrest⟩
  rw [Csv.ofText_of_quoted hkept htext]
  exact hwritten

/-- Written cards of one kind are made of their rows. -/
theorem ofRows_of_written {kind : Kind} {catalog : Catalog} {cards : List Card}
    {rows : List Csv.Row} (h : List.Forall₂ Written cards rows)
    (hkind : ∀ card ∈ cards, card.kind = kind)
    (hresolved : ∀ card ∈ cards, Effect.Resolved catalog card.effect) :
    ofRows kind catalog rows = .ok cards := by
  refine ofRows_of_forall₂ ?_
  induction h with
  | nil => exact .nil
  | cons hrow _ ih =>
    obtain ⟨hcard, hcards⟩ := List.forall_mem_cons.mp hkind
    obtain ⟨heffect, heffects⟩ := List.forall_mem_cons.mp hresolved
    refine .cons (fun place => ?_) (ih hcards heffects)
    rw [← hcard]
    exact ofRow_of_written hrow heffect

end Card

/-! ## Contents -/

namespace Content

/-- **Written content is decoded**: if the descriptions of a catalog are written to the text of
effects as lines, and for each kind the cards of that kind to its table, then decoding these texts
succeeds and gives this catalog and these cards, acquirable ones first. -/
theorem decode_of_written [Name.Spelling] (descriptions : List String) (cards : Kind → List Card)
    (textOf : String → Option String)
    (hline : ∀ line ∈ descriptions, '\n' ∉ line.toList ∧ line.toList.getLast? ≠ some '\r')
    (hlast : ∀ line ∈ descriptions.getLast?, ¬Text.Blank line.toList)
    (hkind : ∀ kind, ∀ card ∈ cards kind, card.kind = kind)
    (htidy : ∀ kind, ∀ card ∈ cards kind, card.Tidy)
    (hresolved : ∀ kind, ∀ card ∈ cards kind,
      card.effect.Resolved (.ofList descriptions))
    (heffects : ∃ text, textOf Resource.effects.name = some text ∧
      Text.Joined Text.lineEnds (descriptions.map String.toList) text.toList)
    (htables : ∀ kind, ∃ text, textOf (Resource.cards kind).name = some text ∧
      Card.WrittenTable (cards kind) text) :
    ∃ content, (decode (.memory textOf)).outcome = .ok content ∧
      content.catalog = .ofList descriptions ∧
      content.cards = cards .acquirable ++ cards .defeatable := by
  obtain ⟨text, htext, hjoined⟩ := heffects
  choose table htable hwritten using htables
  have hlines : Text.lines text = descriptions :=
    Text.lines_of_joined hjoined (fun line hl => ⟨(hline line hl).1, (hline line hl).2⟩) hlast
  refine ⟨⟨.ofList descriptions, .ofCards (cards .acquirable ++ cards .defeatable)⟩, ?_, rfl,
    Compendium.toList_ofCards _⟩
  refine decode_eq_ok_iff.mpr ⟨descriptions, fun kind => Csv.ofText (table kind), cards, ?_⟩
  constructor
  · rw [Source.outcome_lines_memory htext, hlines]
  · exact fun kind => Source.outcome_rows_memory (htable kind)
  · intro kind
    have hrows := Card.rows_of_writtenTable (hwritten kind) (htidy kind)
    exact Card.ofRows_of_written hrows (hkind kind) (hresolved kind)
  · rfl
  · rfl

section Example

open scoped Name.Table

/-! ### A content with every separator in its texts -/

/-- A blank description in the middle, and one with the separators of all layers. -/
def arhaDescriptions : List String :=
  ["Gain 1 rune.", "", "Draw a card; banish it (or \"not\")."]

/-- All of a leaf and a compound. -/
def arhaEffect : Effect :=
  .allOf [.simple ⟨1, "Gain 1 rune.", some (-2), false⟩,
    .compound .one [.simple ⟨3, "Draw a card; banish it (or \"not\").", none, true⟩,
      .simple ⟨2, "", none, false⟩] false]

/-- Two cards with the same effect, of which one has a line end in its name. -/
def arhaCards : Kind → List Card
  | .acquirable => [⟨"Arha, \"the\nInitiate\"", ⟨"1"⟩, "Hero", .acquirable (-1), arhaEffect⟩]
  | .defeatable => [⟨"Cultist", ⟨"X"⟩, "Monster", .defeatable, arhaEffect⟩]

/-- The descriptions as lines, with different line ends. -/
def arhaLines : String :=
  "Gain 1 rune.\r\n\nDraw a card; banish it (or \"not\")."

/-- The tables: several effect columns for one of the cards, a single one for the other. -/
def arhaTable : Kind → String
  | .acquirable =>
    "\"Arha, \"\"the\nInitiate\"\"\",\"1\",\"-1\",\"Hero\",\"1(-2)\",\"OR(3()?;2())\"\r\n"
  | .defeatable => "\"Cultist\",\"X\",\"Monster\",\"AND(1(-2);OR(3()?;2()))\""

def arhaTexts : String → Option String
  | "effects.txt" => some arhaLines
  | "acquirable.csv" => some (arhaTable .acquirable)
  | "defeatable.csv" => some (arhaTable .defeatable)
  | _ => none

theorem resolved_arhaEffect : arhaEffect.Resolved (.ofList arhaDescriptions) := by
  simp only [arhaEffect, Effect.allOf, Effect.resolved_compound_iff, Effect.resolved_simple_iff,
    List.forall_mem_cons, List.not_mem_nil, IsEmpty.forall_iff, implies_true, ne_eq, reduceCtorEq,
    not_false_eq_true, true_and, and_true]
  decide

theorem joined_arhaLines :
    Text.Joined Text.lineEnds (arhaDescriptions.map String.toList) arhaLines.toList := by
  have htext : arhaLines.toList = "Gain 1 rune.".toList ++ ['\r', '\n'] ++
      ("".toList ++ ['\n'] ++ "Draw a card; banish it (or \"not\").".toList) := by cbv
  rw [htext]
  exact .cons _ (by decide) (.cons _ (by decide) (.last _))

theorem writtenTable_arhaTable : ∀ kind, Card.WrittenTable (arhaCards kind) (arhaTable kind)
  | .acquirable => by
    refine ⟨[["Arha, \"the\nInitiate\"", "1", "-1", "Hero", "1(-2)", "OR(3()?;2())"]],
      .cons ⟨_, .several (Nat.le_refl 2), by cbv⟩ .nil, ?_⟩
    have htext : (arhaTable .acquirable).toList = Csv.quotedRecord
        (["Arha, \"the\nInitiate\"", "1", "-1", "Hero", "1(-2)", "OR(3()?;2())"].map
          String.toList) ++ ['\r', '\n'] ++ [] := by cbv
    rw [htext]
    exact .cons _ (by decide) .nil
  | .defeatable => by
    refine ⟨[["Cultist", "X", "Monster", "AND(1(-2);OR(3()?;2()))"]],
      .cons ⟨_, .one arhaEffect, by cbv⟩ .nil, ?_⟩
    have htext : (arhaTable .defeatable).toList = Csv.quotedRecord
        (["Cultist", "X", "Monster", "AND(1(-2);OR(3()?;2()))"].map String.toList) := by cbv
    rw [htext]
    exact .last _

theorem decode_of_written_arha :
    ∃ content, (decode (.memory arhaTexts)).outcome = .ok content ∧
      content.catalog = .ofList arhaDescriptions ∧
      content.cards = arhaCards .acquirable ++ arhaCards .defeatable := by
  refine decode_of_written arhaDescriptions arhaCards arhaTexts (by decide) (by decide) ?_ ?_ ?_
    ⟨arhaLines, rfl, joined_arhaLines⟩ ?_
  · intro kind
    cases kind <;> exact List.forall_mem_singleton.mpr rfl
  · intro kind
    cases kind <;> exact List.forall_mem_singleton.mpr ⟨by decide, by decide, by decide⟩
  · intro kind
    cases kind <;> exact List.forall_mem_singleton.mpr resolved_arhaEffect
  · intro kind
    have htext : arhaTexts (Resource.cards kind).name = some (arhaTable kind) := by
      cases kind <;> rfl
    exact ⟨arhaTable kind, htext, writtenTable_arhaTable kind⟩

end Example

end Content

end CardContent
