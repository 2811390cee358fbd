import CardContent.Name.Table
import CardContent.Proofs.Content.Decode
import Mathlib

/-!
# Decoding gives everything or the first failure

Decoding has five stages: the descriptions and the two tables are read, and then the rows of the one
table and those of the other are made into cards. `placedRows` puts the rows in the order in which
they become cards, so the last two stages are one walk over a list.

* `Readable` says that all three resources can be read, and `Flawless` that every row is a card
  besides.
* `FirstFailure source e` says that `e` is what goes wrong first.

Results:
* `outcome_decode`: decoding reads, then walks over the rows in their order.
* `decode_eq_error_iff`: the error of decoding is the first failure.
* `decode_of_flawless`: if nothing fails, the cards are those of the rows.
* `decode_congr`: a source counts by what is read from its three resources.
* `decode_all_or_first_failure`: all of this about one source.
-/

set_option autoImplicit false

namespace CardContent

/-! ## Rows in their places -/

/-- A row of a table, with the kind of its cards and its place in the table. -/
structure PlacedRow where
  kind : Kind
  place : Nat
  row : Csv.Row

namespace PlacedRow

/-- The card in a row. -/
def card (catalog : Catalog) (r : PlacedRow) : Except Error Card :=
  Card.ofRow r.kind catalog (some r.place) r.row

/-- The rows of a table, places being counted from 1. -/
def ofTable (kind : Kind) (rows : List Csv.Row) : List PlacedRow :=
  (rows.zipIdx 1).map fun row => ⟨kind, row.2, row.1⟩

theorem map_kind_ofTable (kind : Kind) (rows : List Csv.Row) :
    (ofTable kind rows).map PlacedRow.kind = List.replicate rows.length kind := by
  rw [ofTable, List.map_map, ← List.length_zipIdx (i := 1)]
  exact List.map_const'

theorem kind_of_card {catalog : Catalog} {r : PlacedRow} {card : Card}
    (h : r.card catalog = .ok card) : card.kind = r.kind :=
  (Card.ofRow_eq_ok_iff.mp h).1

end PlacedRow

/-- The rows of both tables, those of acquirable cards first. -/
def placedRows (rows : Kind → List Csv.Row) : List PlacedRow :=
  PlacedRow.ofTable .acquirable (rows .acquirable) ++
    PlacedRow.ofTable .defeatable (rows .defeatable)

theorem map_kind_placedRows (rows : Kind → List Csv.Row) :
    (placedRows rows).map PlacedRow.kind =
      List.replicate (rows .acquirable).length .acquirable ++
        List.replicate (rows .defeatable).length .defeatable := by
  rw [placedRows, List.map_append, PlacedRow.map_kind_ofTable, PlacedRow.map_kind_ofTable]

theorem Card.ofRows_eq_mapM (kind : Kind) (catalog : Catalog) (rows : List Csv.Row) :
    Card.ofRows kind catalog rows =
      (PlacedRow.ofTable kind rows).mapM (PlacedRow.card catalog) := by
  rw [PlacedRow.ofTable, List.mapM_map]
  rfl

theorem map_kind_of_cards {catalog : Catalog} {rs : List PlacedRow} {cards : List Card}
    (h : List.Forall₂ (fun r card => r.card catalog = .ok card) rs cards) :
    cards.map Card.kind = rs.map PlacedRow.kind := by
  induction h with
  | nil => rfl
  | cons hcard _ ih => rw [List.map_cons, List.map_cons, ih, PlacedRow.kind_of_card hcard]

namespace Content

variable {source : Source} {content : Content}

/-! ## The stages -/

/-- The descriptions and the rows of both tables can be read. -/
structure Readable (source : Source) (lines : List String) (rows : Kind → List Csv.Row) : Prop where
  descriptions : (source.lines Resource.effects.name).outcome = .ok lines
  tables : ∀ kind, (source.rows (Resource.cards kind).name).outcome = .ok (rows kind)

/-- Everything can be read, and every row is a card. -/
structure Flawless (source : Source) (lines : List String) (rows : Kind → List Csv.Row) : Prop
    extends Readable source lines rows where
  cards : ∀ r ∈ placedRows rows, ∃ card, r.card (.ofList lines) = .ok card

theorem readable_pair {lines : List String} {rows rows' : List Csv.Row}
    (hlines : (source.lines Resource.effects.name).outcome = .ok lines)
    (hrows : (source.rows (Resource.cards .acquirable).name).outcome = .ok rows)
    (hrows' : (source.rows (Resource.cards .defeatable).name).outcome = .ok rows') :
    Readable source lines (Kind.pair rows rows') where
  descriptions := hlines
  tables kind := by
    cases kind
    · exact hrows
    · exact hrows'

/-- What goes wrong first. -/
inductive FirstFailure (source : Source) : Error → Prop where
  /-- The descriptions cannot be read. -/
  | descriptions {e : Error} (h : (source.lines Resource.effects.name).outcome = .error e) :
      FirstFailure source e
  /-- The descriptions can be read, the table of acquirable cards cannot. -/
  | acquirables {lines : List String} {e : Error}
      (hlines : (source.lines Resource.effects.name).outcome = .ok lines)
      (h : (source.rows (Resource.cards .acquirable).name).outcome = .error e) :
      FirstFailure source e
  /-- The descriptions and the table of acquirable cards can be read, the other table cannot. -/
  | defeatables {lines : List String} {rows : List Csv.Row} {e : Error}
      (hlines : (source.lines Resource.effects.name).outcome = .ok lines)
      (hrows : (source.rows (Resource.cards .acquirable).name).outcome = .ok rows)
      (h : (source.rows (Resource.cards .defeatable).name).outcome = .error e) :
      FirstFailure source e
  /-- Everything can be read, and this row is the first that is no card. -/
  | row {lines : List String} {rows : Kind → List Csv.Row} {front back : List PlacedRow}
      {r : PlacedRow} {e : Error} (hread : Readable source lines rows)
      (hrows : placedRows rows = front ++ r :: back)
      (hfront : ∀ earlier ∈ front, ∃ card, earlier.card (.ofList lines) = .ok card)
      (h : r.card (.ofList lines) = .error e) : FirstFailure source e

section Decoding

variable [Name.Spelling]

/-- **Decoding reads, then walks over the rows.** -/
theorem outcome_decode (source : Source) : (decode source).outcome = do
    let lines ← (source.lines Resource.effects.name).outcome
    let acquirableRows ← (source.rows (Resource.cards .acquirable).name).outcome
    let defeatableRows ← (source.rows (Resource.cards .defeatable).name).outcome
    let cards ← (placedRows (Kind.pair acquirableRows defeatableRows)).mapM
      (PlacedRow.card (.ofList lines))
    return ⟨.ofList lines, .ofCards cards⟩ := by
  unfold decode placedRows
  simp only [Logged.outcome_bind, Logged.outcome_log, Logged.outcome_ofExcept,
    Logged.outcome_pure, Card.ofRows_eq_mapM, List.mapM_append, bind_assoc, pure_bind]
  rfl

/-- **The error of decoding is the first failure.** -/
theorem decode_eq_error_iff {e : Error} :
    (decode source).outcome = .error e ↔ FirstFailure source e := by
  simp only [outcome_decode, bind_eq_error_iff]
  constructor
  · rintro (h | ⟨lines, hlines, h | ⟨rows, hrows, h | ⟨rows', hrows', h | ⟨cards, -, h⟩⟩⟩⟩)
    · exact .descriptions h
    · exact .acquirables hlines h
    · exact .defeatables hlines hrows h
    · obtain ⟨front, r, back, heq, hfront, hr⟩ := mapM_eq_error_iff.mp h
      exact .row (readable_pair hlines hrows hrows') heq hfront hr
    · cases h
  · intro h
    cases h with
    | descriptions h => exact Or.inl h
    | acquirables hlines h => exact Or.inr ⟨_, hlines, Or.inl h⟩
    | defeatables hlines hrows h => exact Or.inr ⟨_, hlines, Or.inr ⟨_, hrows, Or.inl h⟩⟩
    | row hread heq hfront hr =>
      have hwalk := mapM_eq_error_iff.mpr ⟨_, _, _, heq, hfront, hr⟩
      exact Or.inr ⟨_, hread.descriptions, Or.inr ⟨_, hread.tables .acquirable,
        Or.inr ⟨_, hread.tables .defeatable, Or.inl hwalk⟩⟩⟩

/-- **If nothing fails, the cards are those of the rows**, one for each and in their order. -/
theorem decode_of_flawless {lines : List String} {rows : Kind → List Csv.Row}
    (h : Flawless source lines rows) : ∃ content, (decode source).outcome = .ok content ∧
      content.catalog = .ofList lines ∧
      List.Forall₂ (fun r card => r.card (.ofList lines) = .ok card) (placedRows rows)
        content.cards := by
  obtain ⟨cards, hcards⟩ := exists_mapM_eq_ok_iff.mpr h.cards
  refine ⟨⟨.ofList lines, .ofCards cards⟩, ?_, rfl, ?_⟩
  · simp only [outcome_decode, h.descriptions, h.tables, bind_eq_ok_iff]
    exact ⟨lines, rfl, rows .acquirable, rfl, rows .defeatable, rfl, cards, hcards, rfl⟩
  · rw [Content.cards, Compendium.toList_ofCards]
    exact mapM_eq_ok_iff.mp hcards

/-- Where something is decoded, nothing fails. -/
theorem flawless_of_decode (h : (decode source).outcome = .ok content) :
    ∃ lines rows, Flawless source lines rows := by
  simp only [outcome_decode, bind_eq_ok_iff] at h
  obtain ⟨lines, hlines, rows, hrows, rows', hrows', cards, hcards, -⟩ := h
  exact ⟨lines, Kind.pair rows rows', readable_pair hlines hrows hrows',
    exists_mapM_eq_ok_iff.mp ⟨cards, hcards⟩⟩

/-- Decoded content has a card for each row, in the order of the rows. -/
theorem rows_of_decode (h : (decode source).outcome = .ok content) :
    ∃ lines rows, Flawless source lines rows ∧
      List.Forall₂ (fun r card => r.card (.ofList lines) = .ok card) (placedRows rows)
        content.cards := by
  obtain ⟨lines, rows, hflawless⟩ := flawless_of_decode h
  obtain ⟨same, hsame, -, hcards⟩ := decode_of_flawless hflawless
  obtain rfl : content = same := Except.ok.inj (h.symm.trans hsame)
  exact ⟨lines, rows, hflawless, hcards⟩

/-- **A source counts by three resources**, what is logged included. -/
theorem decode_congr {other : Source}
    (hlines : other.lines Resource.effects.name = source.lines Resource.effects.name)
    (hrows : ∀ kind, other.rows (Resource.cards kind).name =
      source.rows (Resource.cards kind).name) : decode other = decode source := by
  unfold decode
  rw [hlines, hrows .acquirable, hrows .defeatable]

/-- **Decoding gives all cards or the first failure.** If everything can be read and every row is a
card, there is a content with a card for each row, in the order of the rows, the acquirable ones
first. Otherwise there is an error, which is the first failure. The deck list has no part in it. -/
theorem decode_all_or_first_failure (source : Source) :
    (∀ lines rows, Flawless source lines rows →
      ∃ content, (decode source).outcome = .ok content ∧ content.catalog = .ofList lines ∧
        List.Forall₂ (fun r card => r.card (.ofList lines) = .ok card) (placedRows rows)
          content.cards ∧
        content.cards.length = (rows .acquirable).length + (rows .defeatable).length ∧
        content.cards.map Card.kind =
          List.replicate (rows .acquirable).length .acquirable ++
            List.replicate (rows .defeatable).length .defeatable) ∧
    ((¬∃ lines rows, Flawless source lines rows) → ∃ e, (decode source).outcome = .error e) ∧
    (∀ e, (decode source).outcome = .error e ↔ FirstFailure source e) ∧
    ∀ other : Source,
      (∀ name, name ≠ Resource.counts.name →
        other.lines name = source.lines name ∧ other.rows name = source.rows name) →
      decode other = decode source := by
  refine ⟨fun lines rows h => ?_, fun h => ?_, fun _ => decode_eq_error_iff, fun other h => ?_⟩
  · obtain ⟨content, hdecode, hcatalog, hcards⟩ := decode_of_flawless h
    have hkinds := (map_kind_of_cards hcards).trans (map_kind_placedRows rows)
    refine ⟨content, hdecode, hcatalog, hcards, ?_, hkinds⟩
    rw [← List.length_map (f := Card.kind), hkinds, List.length_append, List.length_replicate,
      List.length_replicate]
  · cases hdecode : (decode source).outcome with
    | error e => exact ⟨e, rfl⟩
    | ok content => exact absurd (flawless_of_decode hdecode) h
  · exact decode_congr (h _ (by decide)).1 fun kind => (h _ (by cases kind <;> decide)).2

end Decoding

section Example

open scoped Name.Table

/-- Texts in which one name stands three times. -/
def twinTexts : String → Option String
  | "effects.txt" => some "Gain 1 rune.\n"
  | "acquirable.csv" => some "Twin,3,1,Hero,1()\nTwin,4,0,Hero,1()\n"
  | "defeatable.csv" => some "Twin,2,Monster,1(2)?\n"
  | _ => none

/-- The rows of `twinTexts`. -/
def twinRows : Kind → List Csv.Row
  | .acquirable => [["Twin", "3", "1", "Hero", "1()"], ["Twin", "4", "0", "Hero", "1()"]]
  | .defeatable => [["Twin", "2", "Monster", "1(2)?"]]

/-- The cards of `twinTexts`. -/
def twins : List Card :=
  [⟨"Twin", ⟨"3"⟩, "Hero", .acquirable 1, .simple ⟨1, "Gain 1 rune.", none, false⟩⟩,
    ⟨"Twin", ⟨"4"⟩, "Hero", .acquirable 0, .simple ⟨1, "Gain 1 rune.", none, false⟩⟩,
    ⟨"Twin", ⟨"2"⟩, "Monster", .defeatable, .simple ⟨1, "Gain 1 rune.", some 2, true⟩⟩]

theorem decode_twins : Flawless (.memory twinTexts) ["Gain 1 rune."] twinRows ∧
    ∃ content, (decode (.memory twinTexts)).outcome = .ok content ∧ content.cards = twins := by
  have hcards : (placedRows twinRows).mapM (PlacedRow.card (.ofList ["Gain 1 rune."])) =
      .ok twins := by cbv
  have hflawless : Flawless (.memory twinTexts) ["Gain 1 rune."] twinRows :=
    { descriptions := rfl
      tables := fun kind => by cases kind <;> rfl
      cards := exists_mapM_eq_ok_iff.mp ⟨twins, hcards⟩ }
  obtain ⟨content, hdecode, -, hwalk, -⟩ :=
    (decode_all_or_first_failure (.memory twinTexts)).1 _ _ hflawless
  have hsame := (mapM_eq_ok_iff.mpr hwalk).symm.trans hcards
  exact ⟨hflawless, content, hdecode, Except.ok.inj hsame⟩

/-- A table that is missing is reported ahead of a row that is no card. -/
example : (decode (.memory fun
    | "effects.txt" => some "Gain 1 rune.\n"
    | "acquirable.csv" => some "Mystic,3\n"
    | _ => none)).outcome = .error (.missing "defeatable.csv") := rfl

end Example

end Content

end CardContent
