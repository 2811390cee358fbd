import CardContent.Content.Load
import CardContent.Proofs.Card.Row

/-!
# The stages of decoding

Decoding reads the descriptions and the two tables and makes cards of the rows. `Decoded` lists
what each stage has to give.

Results:
* `decode_eq_ok_iff`: decoding gives a content exactly if every stage gives its share of it.
* `ofKind_append_ofKind`: the cards of the two kinds, one behind the other, are all cards.
* `decode_of_load`: what a load gives is decoded.
-/

set_option autoImplicit false

namespace CardContent

/-- A value for each kind. -/
def Kind.pair {α : Type} (acquirable defeatable : α) : Kind → α
  | .acquirable => acquirable
  | .defeatable => defeatable

theorem Card.kind_of_ofRows {kind : Kind} {catalog : Catalog} {rows : List Csv.Row}
    {cards : List Card} (h : Card.ofRows kind catalog rows = .ok cards) :
    ∀ card ∈ cards, card.kind = kind :=
  forall_mem_of_mapM (fun _ _ hrow => (Card.ofRow_eq_ok_iff.mp hrow).1) h

namespace Content

variable [Name.Spelling] {source : Source} {content : Content}

/-- What the stages of decoding give: the descriptions, for each kind of cards the rows of its
table, and for each kind the cards of these rows. -/
structure Decoded (source : Source) (content : Content) (lines : List String)
    (rows : Kind → List Csv.Row) (cards : Kind → List Card) : Prop where
  read : (source.lines Resource.effects.name).outcome = .ok lines
  tables : ∀ kind, (source.rows (Resource.cards kind).name).outcome = .ok (rows kind)
  made : ∀ kind, Card.ofRows kind (.ofList lines) (rows kind) = .ok (cards kind)
  catalog : content.catalog = .ofList lines
  compendium : content.compendium = .ofCards (cards .acquirable ++ cards .defeatable)

theorem Decoded.cards_eq {lines : List String} {rows : Kind → List Csv.Row}
    {cards : Kind → List Card} (h : Decoded source content lines rows cards) :
    content.cards = cards .acquirable ++ cards .defeatable := by
  rw [Content.cards, h.compendium, Compendium.toList_ofCards]

/-- **Decoding gives a content** exactly if each stage gives its share. -/
theorem decode_eq_ok_iff : (decode source).outcome = .ok content ↔
    ∃ lines rows cards, Decoded source content lines rows cards := by
  unfold decode
  simp only [Logged.outcome_bind, Logged.outcome_log, Logged.outcome_ofExcept,
    Logged.outcome_pure, bind_eq_ok_iff, true_and, exists_const]
  constructor
  · rintro ⟨lines, hlines, rows, hrows, rows', hrows', cards, hcards, cards', hcards', h⟩
    cases h
    refine ⟨lines, Kind.pair rows rows', Kind.pair cards cards', hlines, ?_, ?_, rfl, rfl⟩
    · intro kind
      cases kind
      · exact hrows
      · exact hrows'
    · intro kind
      cases kind
      · exact hcards
      · exact hcards'
  · rintro ⟨lines, rows, cards, h⟩
    refine ⟨lines, h.read, rows .acquirable, h.tables .acquirable, rows .defeatable,
      h.tables .defeatable, cards .acquirable, h.made .acquirable, cards .defeatable,
      h.made .defeatable, ?_⟩
    obtain ⟨catalog, compendium⟩ := content
    obtain rfl := h.catalog
    obtain rfl := h.compendium
    rfl

/-- The cards of a kind are those of its table. -/
theorem Decoded.ofKind_eq {lines : List String} {rows : Kind → List Csv.Row}
    {cards : Kind → List Card} (h : Decoded source content lines rows cards) (kind : Kind) :
    content.compendium.ofKind kind = cards kind := by
  have hkeep : (cards kind).filter (fun card => card.kind = kind) = cards kind :=
    List.filter_eq_self.mpr fun card hcard =>
      decide_eq_true (Card.kind_of_ofRows (h.made kind) card hcard)
  have hdrop : ∀ other, other ≠ kind → (cards other).filter (fun card => card.kind = kind) = [] :=
    fun other hother => List.filter_eq_nil_iff.mpr fun card hcard => by
      rw [Card.kind_of_ofRows (h.made other) card hcard]
      simpa using hother
  have hcards : content.compendium.toList = cards .acquirable ++ cards .defeatable := h.cards_eq
  rw [Compendium.ofKind, hcards, List.filter_append]
  cases kind with
  | acquirable => rw [hkeep, hdrop .defeatable Kind.noConfusion, List.append_nil]
  | defeatable => rw [hkeep, hdrop .acquirable Kind.noConfusion, List.nil_append]

/-- **The cards of the two kinds, one behind the other, are all cards.** -/
theorem ofKind_append_ofKind (h : (decode source).outcome = .ok content) :
    content.compendium.ofKind .acquirable ++ content.compendium.ofKind .defeatable =
      content.cards := by
  obtain ⟨lines, rows, cards, hdecoded⟩ := decode_eq_ok_iff.mp h
  rw [hdecoded.ofKind_eq, hdecoded.ofKind_eq, hdecoded.cards_eq]

/-- **What a load gives is decoded**: the guard only keeps loads from being made. -/
theorem decode_of_load {guard : LoadGuard} (h : (guard.load source).1.outcome = .ok content) :
    (decode source).outcome = .ok content := by
  obtain ⟨claimed⟩ := guard
  cases claimed with
  | true => cases h
  | false => exact h

end Content

end CardContent
