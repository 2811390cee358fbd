import CardContent.Proofs.Card.Row
import Mathlib

/-!
# Which tables are cards, and what is wrong with the others

A row is checked from left to right: its width, its honor, its effects, and last that it has any.
The first check that fails gives the error of the row, and the first row with an error that of the
table. The error names the row once, by its name or by its place.

* `IsRow` says that a row is a card of a kind, and `Makes` which card it is. In neither has the
  place of the row any part.
* `Refused` says what is wrong with a row: each case stands behind the checks in front of it.
* `Called place row label` says what a row is called in errors.

Results:
* `ofRow_eq_ok_iff_makes`, `ofRow_eq_error_iff`: a row gives the card that it makes, or the error
  that it is refused with.
* `exists_ofRow_iff`: it gives a card exactly if it is a row of the kind.
* `ofRows_eq_error_iff`: a table fails with the error of the first row that has one.
* `ofRows_cards_or_first_refusal`: all of this about one table.
-/

set_option autoImplicit false

namespace CardContent

/-- The column in which rows of a kind have the honor of the card. -/
def Kind.honorColumn? : Kind → Csv.Row → Option String
  | .acquirable, row => row[2]?
  | .defeatable, _ => none

namespace Card

variable {kind : Kind} {catalog : Catalog} {place : Option Nat} {label : String} {row : Csv.Row}
  {card : Card} {e : Error}

/-- What stands where a row has its honor is a numeral. -/
def HasHonor (kind : Kind) (row : Csv.Row) : Prop :=
  ∀ text ∈ kind.honorColumn? row, ∃ honor : Int32, Numeral.Signed text.toList honor.toInt

/-- The row has the columns of a card and at least one effect, the honor is a numeral as it stands,
and every column from the first effect on is an effect. -/
structure IsRow (kind : Kind) (catalog : Catalog) (row : Csv.Row) : Prop where
  wide : kind.fixedColumns + 1 ≤ row.length
  honor : HasHonor kind row
  effects : ∀ column ∈ row.drop kind.fixedColumns, ∃ e, Effect.parse catalog column = .ok e

/-- The row is the leading columns of the card with the columns of its effect behind them. -/
inductive Makes (catalog : Catalog) : Csv.Row → Card → Prop where
  | intro {card : Card} {leading columns : List String} {effects : List Effect}
      (hleading : Leading card leading)
      (hcolumns :
        List.Forall₂ (fun column e => Effect.parse catalog column = .ok e) columns effects)
      (heffect : Joint effects card.effect) : Makes catalog (leading ++ columns) card

/-- What is wrong with a row that is called `label`. -/
inductive Refused (kind : Kind) (catalog : Catalog) (label : String) (row : Csv.Row) :
    Error → Prop where
  /-- It has not the columns that stand in front of the effects. -/
  | narrow (h : row.length < kind.fixedColumns) :
      Refused kind catalog label row
        (.row label (.tooFewColumns kind.fixedColumns row.length))
  /-- It has these columns, but its honor is no numeral. -/
  | honor {text : String} (hwide : kind.fixedColumns ≤ row.length)
      (hcolumn : kind.honorColumn? row = some text)
      (h : ∀ honor : Int32, ¬Numeral.Signed text.toList honor.toInt) :
      Refused kind catalog label row (.row label (.honorNotInteger text))
  /-- All that is right, and this is the leftmost effect column that is no effect. -/
  | effect {front back : List String} {column : String} {fault : TokenError}
      (hwide : kind.fixedColumns ≤ row.length) (hhonor : HasHonor kind row)
      (hcolumns : row.drop kind.fixedColumns = front ++ column :: back)
      (hfront : ∀ earlier ∈ front, ∃ e, Effect.parse catalog earlier = .ok e)
      (h : Effect.parse catalog column = .error fault) :
      Refused kind catalog label row (.inCard label fault)
  /-- All that is right, but there is no effect column. -/
  | bare (hwidth : row.length = kind.fixedColumns) (hhonor : HasHonor kind row) :
      Refused kind catalog label row (.row label .noEffects)

/-- What a row at a place, counted from 1, is called: its name, or the place if it has none. -/
inductive Called (place : Nat) : Csv.Row → String → Prop where
  | named {name : String} {rest : List String} (h : name ≠ "") : Called place (name :: rest) name
  | nameless (rest : List String) : Called place ("" :: rest) ("row " ++ Numeral.natText place)
  | empty : Called place [] ("row " ++ Numeral.natText place)

theorem called_iff {n : Nat} : Called n row label ↔ label = rowLabel (some n) row := by
  constructor
  · intro h
    cases h with
    | named h => simp [rowLabel, h]
    | nameless => rfl
    | empty => rfl
  · rintro rfl
    cases row with
    | nil => exact .empty
    | cons name rest =>
      by_cases h : name = ""
      · subst h
        exact .nameless rest
      · have hname : rowLabel (some n) (name :: rest) = name := by simp [rowLabel, h]
        rw [hname]
        exact .named h

/-! ## Leading columns -/

/-- Behind leading columns only the effects count. -/
theorem ofRow_leading {leading : List String} (h : Leading card leading) (columns : List String) :
    ofRow card.kind catalog place (leading ++ columns) =
      (effectOfColumns catalog (rowLabel place (leading ++ columns)) columns).map
        fun effect => { card with effect } := by
  obtain ⟨name, cost, type, role, effect⟩ := card
  cases h with
  | acquirable hrole hnumeral =>
    obtain rfl := hrole
    have hvalue := Numeral.int32?_eq_some_iff.mpr hnumeral
    simp only [ofRow, Card.kind, Role.kind, List.cons_append, List.nil_append, hvalue]
    rfl
  | defeatable hrole =>
    obtain rfl := hrole
    rfl

/-- **A row of the right width has leading columns** if its honor is a numeral. -/
theorem exists_leading (hwide : kind.fixedColumns ≤ row.length) (hhonor : HasHonor kind row) :
    ∃ card leading, Leading card leading ∧ card.kind = kind ∧
      row = leading ++ row.drop kind.fixedColumns := by
  match kind, row, hwide with
  | .acquirable, name :: cost :: numeral :: type :: columns, _ =>
    obtain ⟨honor, hnumeral⟩ := hhonor numeral rfl
    exact ⟨⟨name, ⟨cost⟩, type, .acquirable honor, default⟩, [name, cost, numeral, type],
      .acquirable rfl hnumeral, rfl, rfl⟩
  | .defeatable, name :: cost :: type :: columns, _ =>
    exact ⟨⟨name, ⟨cost⟩, type, .defeatable, default⟩, [name, cost, type], .defeatable rfl, rfl,
      rfl⟩

/-! ## Effect columns -/

/-- Effect columns fail with the leftmost that is no effect, or because there is none. -/
theorem effectOfColumns_eq_error_iff {columns : List String} :
    effectOfColumns catalog label columns = .error e ↔
      (∃ fault, Effect.parseAll catalog columns = .error fault ∧ e = .inCard label fault) ∨
        columns = [] ∧ e = .row label .noEffects := by
  unfold effectOfColumns
  cases hparse : Effect.parseAll catalog columns with
  | error fault =>
    have hne : columns ≠ [] := by
      rintro rfl
      cases hparse
    simp [hne, eq_comm]
  | ok effects =>
    have hlength := (mapM_eq_ok_iff.mp hparse).length_eq
    rcases effects with _ | ⟨e₁, _ | ⟨e₂, rest⟩⟩
    · obtain rfl := List.length_eq_zero_iff.mp hlength
      simp [eq_comm]
    · have hne : columns ≠ [] := by rintro rfl; simp at hlength
      simp [hne]
    · have hne : columns ≠ [] := by rintro rfl; simp at hlength
      simp [hne]

/-! ## One row -/

/-- **A row gives the card that it makes**, wherever it stands. -/
theorem ofRow_eq_ok_iff_makes :
    ofRow kind catalog place row = .ok card ↔ card.kind = kind ∧ Makes catalog row card := by
  rw [ofRow_eq_ok_iff]
  refine and_congr Iff.rfl ⟨?_, ?_⟩
  · rintro ⟨leading, columns, hleading, rfl, heffect⟩
    obtain ⟨effects, heffects, hjoint⟩ := effectOfColumns_eq_ok_iff.mp heffect
    exact .intro hleading (mapM_eq_ok_iff.mp heffects) hjoint
  · intro h
    cases h with
    | intro hleading hcolumns hjoint =>
      exact ⟨_, _, hleading, rfl,
        effectOfColumns_eq_ok_iff.mpr ⟨_, mapM_eq_ok_iff.mpr hcolumns, hjoint⟩⟩

/-- **A refused row fails**, and with this error. -/
theorem ofRow_of_refused (h : Refused kind catalog (rowLabel place row) row e) :
    ofRow kind catalog place row = .error e := by
  have hrow : ∀ {e}, kind.fixedColumns ≤ row.length → HasHonor kind row →
      effectOfColumns catalog (rowLabel place row) (row.drop kind.fixedColumns) = .error e →
        ofRow kind catalog place row = .error e := by
    intro e hwide hhonor he
    obtain ⟨card, leading, hleading, rfl, hrow⟩ := exists_leading hwide hhonor
    rw [hrow, ofRow_leading hleading, ← hrow, he]
    rfl
  cases h with
  | narrow h =>
    match kind, row, h with
    | .acquirable, [], _ | .acquirable, [_], _ | .acquirable, [_, _], _
    | .acquirable, [_, _, _], _ | .defeatable, [], _ | .defeatable, [_], _
    | .defeatable, [_, _], _ => rfl
  | @honor text hwide hcolumn h =>
    match kind, row, hwide, hcolumn with
    | .acquirable, name :: cost :: numeral :: type :: columns, _, hcolumn =>
      obtain rfl : numeral = text := Option.some.inj hcolumn
      simp only [ofRow, Numeral.int32?_eq_none_iff.mpr h]
  | effect hwide hhonor hcolumns hfront h =>
    refine hrow hwide hhonor (effectOfColumns_eq_error_iff.mpr (Or.inl ⟨_, ?_, rfl⟩))
    exact mapM_eq_error_iff.mpr ⟨_, _, _, hcolumns, hfront, h⟩
  | bare hwidth hhonor =>
    refine hrow (Nat.le_of_eq hwidth.symm) hhonor
      (effectOfColumns_eq_error_iff.mpr (Or.inr ⟨?_, rfl⟩))
    exact List.drop_eq_nil_of_le (Nat.le_of_eq hwidth)

/-- **A row is a row of the kind or refused**, by the first check that it fails. -/
theorem isRow_or_refused (kind : Kind) (catalog : Catalog) (label : String) (row : Csv.Row) :
    IsRow kind catalog row ∨ ∃ e, Refused kind catalog label row e := by
  by_cases hwide : kind.fixedColumns ≤ row.length
  swap
  · exact Or.inr ⟨_, .narrow (Nat.lt_of_not_le hwide)⟩
  by_cases hhonor : HasHonor kind row
  swap
  · simp only [HasHonor, not_forall, not_exists] at hhonor
    obtain ⟨text, hcolumn, h⟩ := hhonor
    exact Or.inr ⟨_, .honor hwide hcolumn h⟩
  cases hparse : Effect.parseAll catalog (row.drop kind.fixedColumns) with
  | error fault =>
    obtain ⟨front, column, back, hcolumns, hfront, h⟩ := mapM_eq_error_iff.mp hparse
    exact Or.inr ⟨_, .effect hwide hhonor hcolumns hfront h⟩
  | ok effects =>
    rcases Nat.eq_or_lt_of_le hwide with hwidth | hmore
    · exact Or.inr ⟨_, .bare hwidth.symm hhonor⟩
    · exact Or.inl ⟨hmore, hhonor, exists_mapM_eq_ok_iff.mp ⟨effects, hparse⟩⟩

/-- **A row gives a card** exactly if it is a row of the kind. -/
theorem exists_ofRow_iff :
    (∃ card, ofRow kind catalog place row = .ok card) ↔ IsRow kind catalog row := by
  constructor
  · rintro ⟨card, hcard⟩
    rcases isRow_or_refused kind catalog (rowLabel place row) row with h | ⟨e, h⟩
    · exact h
    · rw [ofRow_of_refused h] at hcard
      cases hcard
  · rintro ⟨hwide, hhonor, heffects⟩
    obtain ⟨effects, hparse⟩ := exists_mapM_eq_ok_iff.mpr heffects
    obtain ⟨card, leading, hleading, rfl, hrow⟩ := exists_leading (Nat.le_of_succ_le hwide) hhonor
    have hlength : 1 ≤ effects.length := by
      rw [← (mapM_eq_ok_iff.mp hparse).length_eq, List.length_drop]
      omega
    obtain ⟨effect, hjoint⟩ : ∃ effect, Joint effects effect := by
      rcases effects with _ | ⟨e₁, _ | ⟨e₂, rest⟩⟩
      · cases hlength
      · exact ⟨e₁, .one e₁⟩
      · exact ⟨_, .several (Nat.le_add_left 2 rest.length)⟩
    rw [hrow, ofRow_leading hleading, ← hrow,
      effectOfColumns_eq_ok_iff.mpr ⟨effects, hparse, hjoint⟩]
    exact ⟨_, rfl⟩

/-- **A row fails with what it is refused with.** -/
theorem ofRow_eq_error_iff : ofRow kind catalog place row = .error e ↔
    Refused kind catalog (rowLabel place row) row e := by
  constructor
  · intro he
    rcases isRow_or_refused kind catalog (rowLabel place row) row with h | ⟨e', h⟩
    · obtain ⟨card, hcard⟩ : ∃ card, ofRow kind catalog place row = .ok card :=
        exists_ofRow_iff.mpr h
      rw [hcard] at he
      cases he
    · rw [ofRow_of_refused h] at he
      obtain rfl := Except.error.inj he
      exact h
  · exact ofRow_of_refused

/-- A row is refused in its own words, or in those of a token in the context of its name. -/
theorem Refused.error_cases (h : Refused kind catalog label row e) :
    (∃ fault, e = .row label fault ∧ e.root = e) ∨
      ∃ fault, e = .inCard label fault ∧ e.root = .token fault := by
  cases h with
  | narrow | honor | bare => exact Or.inl ⟨_, rfl, rfl⟩
  | effect => exact Or.inr ⟨_, rfl, rfl⟩

/-! ## All rows -/

variable {rows : List Csv.Row} {cards : List Card}

/-- **The cards of a table** are what its rows make, one for each and in their order. -/
theorem ofRows_eq_ok_iff_makes : ofRows kind catalog rows = .ok cards ↔
    List.Forall₂ (fun row card => card.kind = kind ∧ Makes catalog row card) rows cards := by
  rw [ofRows_eq_ok_iff]
  simp only [ofRow_eq_ok_iff_makes]
  have hplaces := List.forall₂_map_left_iff (f := Prod.fst) (l := rows.zipIdx 1) (u := cards)
    (R := fun (row : Csv.Row) card => card.kind = kind ∧ Makes catalog row card)
  rw [← hplaces, List.zipIdx_map_fst]

/-- Whether all rows are cards does not depend on where they stand. -/
theorem forall_placed_iff {start : Nat} :
    (∀ placed ∈ rows.zipIdx start, ∃ card, ofRow kind catalog (some placed.2) placed.1 = .ok card) ↔
      ∀ row ∈ rows, IsRow kind catalog row := by
  have hplaces : (∀ row ∈ (rows.zipIdx start).map Prod.fst, IsRow kind catalog row) ↔
      ∀ placed ∈ rows.zipIdx start, IsRow kind catalog placed.1 := List.forall_mem_map
  rw [List.zipIdx_map_fst] at hplaces
  simp only [exists_ofRow_iff, hplaces]

theorem exists_ofRows_iff :
    (∃ cards, ofRows kind catalog rows = .ok cards) ↔ ∀ row ∈ rows, IsRow kind catalog row := by
  rw [ofRows, exists_mapM_eq_ok_iff]
  exact forall_placed_iff

/-- **A table fails with the first row that is refused**; what stands behind it does not count. -/
theorem ofRows_eq_error_iff : ofRows kind catalog rows = .error e ↔
    ∃ front row back label, rows = front ++ row :: back ∧
      (∀ earlier ∈ front, IsRow kind catalog earlier) ∧ Called (front.length + 1) row label ∧
      Refused kind catalog label row e := by
  simp only [called_iff]
  rw [ofRows, mapM_eq_error_iff]
  constructor
  · rintro ⟨front, placed, back, hplaces, hfront, he⟩
    obtain ⟨front, more, rfl, rfl, hmore⟩ := List.zipIdx_eq_append_iff.mp hplaces
    obtain ⟨row, back, rfl, rfl, -⟩ := List.zipIdx_eq_cons_iff.mp hmore.symm
    refine ⟨front, row, back, _, rfl, forall_placed_iff.mp hfront, ?_, ofRow_eq_error_iff.mp he⟩
    rw [Nat.add_comm]
  · rintro ⟨front, row, back, label, rfl, hfront, rfl, he⟩
    refine ⟨front.zipIdx 1, (row, front.length + 1), back.zipIdx (front.length + 2), ?_,
      forall_placed_iff.mpr hfront, ofRow_eq_error_iff.mpr he⟩
    rw [List.zipIdx_append, List.zipIdx_cons, Nat.add_comm 1]

/-- **A table gives all its cards or is refused by its first bad row.** It gives cards exactly if
every row has its columns and an effect, an honor that is a numeral as it stands, and effects in all
columns from the first effect on; the cards then have name, cost and class as they stand, and the
one effect or all of several in the order of their columns. Otherwise the error is that of the first
row with one, whatever stands behind it: of its width, of its honor, of its leftmost column that is
no effect, or of having none, the first of these that applies. It names the row by its name, or by
its place if it has none, and names it once. -/
theorem ofRows_cards_or_first_refusal (kind : Kind) (catalog : Catalog) (rows : List Csv.Row) :
    ((∃ cards, ofRows kind catalog rows = .ok cards) ↔ ∀ row ∈ rows, IsRow kind catalog row) ∧
    (∀ cards, ofRows kind catalog rows = .ok cards ↔
      List.Forall₂ (fun row card => card.kind = kind ∧ Makes catalog row card) rows cards) ∧
    (∀ e, ofRows kind catalog rows = .error e ↔
      ∃ front row back label, rows = front ++ row :: back ∧
        (∀ earlier ∈ front, IsRow kind catalog earlier) ∧ Called (front.length + 1) row label ∧
        Refused kind catalog label row e) ∧
    ∀ e, ofRows kind catalog rows = .error e →
      (∃ label fault, e = .row label fault ∧ e.root = e) ∨
        ∃ label fault, e = .inCard label fault ∧ e.root = .token fault := by
  refine ⟨exists_ofRows_iff, fun _ => ofRows_eq_ok_iff_makes, fun _ => ofRows_eq_error_iff,
    fun e he => ?_⟩
  obtain ⟨_, _, _, label, _, _, _, hrefused⟩ := ofRows_eq_error_iff.mp he
  rcases hrefused.error_cases with ⟨fault, h⟩ | ⟨fault, h⟩
  · exact Or.inl ⟨label, fault, h⟩
  · exact Or.inr ⟨label, fault, h⟩

/-- A row with two effects, the second of them compound. -/
def twofoldRow : Csv.Row := ["Mystic", "3", "+1", "Hero", "1(2)", "OR(1();2())?"]

/-- The card in `twofoldRow`. -/
def twofoldCard : Card where
  name := "Mystic"
  cost := ⟨"3"⟩
  type := "Hero"
  role := .acquirable 1
  effect := .allOf [.simple ⟨1, "Gain 1 rune.", some 2, false⟩,
    .compound .one [.simple ⟨1, "Gain 1 rune.", none, false⟩,
      .simple ⟨2, "Draw a card.", none, false⟩] true]

/-- A row without a name that has a wrong honor and, behind it, a wrong effect. -/
def namelessRow : Csv.Row := ["", "", " 1", "Hero", "1()", "x"]

theorem ofRows_cards_or_first_refusal_nameless :
    let catalog := Catalog.ofList ["Gain 1 rune.", "Draw a card."]
    let error := Error.row "row 2" (.honorNotInteger " 1")
    ofRows .acquirable catalog [twofoldRow, namelessRow, ["Seer"]] = .error error ∧
      error.root = error ∧
      (∃ front row back label, [twofoldRow, namelessRow, ["Seer"]] = front ++ row :: back ∧
        (∀ earlier ∈ front, IsRow .acquirable catalog earlier) ∧
        Called (front.length + 1) row label ∧ Refused .acquirable catalog label row error) ∧
      IsRow .acquirable catalog twofoldRow ∧ Makes catalog twofoldRow twofoldCard := by
  intro catalog error
  have herror : ofRows .acquirable catalog [twofoldRow, namelessRow, ["Seer"]] = .error error := by
    cbv
  have hcard : ofRows .acquirable catalog [twofoldRow] = .ok [twofoldCard] := by cbv
  obtain ⟨hrows, hcards, -, -⟩ := ofRows_cards_or_first_refusal .acquirable catalog [twofoldRow]
  obtain ⟨-, -, hrefused, hnamed⟩ := ofRows_cards_or_first_refusal .acquirable catalog
    [twofoldRow, namelessRow, ["Seer"]]
  refine ⟨herror, ?_, (hrefused error).mp herror, hrows.mp ⟨_, hcard⟩ _ List.mem_cons_self, ?_⟩
  · rcases hnamed error herror with ⟨_, _, _, hroot⟩ | ⟨_, _, h, _⟩
    · exact hroot
    · exact absurd h (by simp [error])
  · have hmade := (hcards [twofoldCard]).mp hcard
    cases hmade with
    | cons h _ => exact h.2

end Card

end CardContent
