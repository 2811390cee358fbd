import CardContent.Proofs.Content.Resolved
import CardContent.Proofs.Text.Lines
import Mathlib

/-!
# More descriptions leave the cards as they are

Cards refer to descriptions by number, so a text of effects can be continued: whatever is written
behind it on lines of its own, the numbers that there were keep their descriptions, and what was a
card before is the same card. Blank lines at the end of the old text count as lines once there is
text behind them, but their numbers are higher than those of all old descriptions.

* `catalog.Grows grown` says that `grown` has every description of `catalog` under its number.
* `source.Continued grown text more` says that `grown` is a source like `source`, where more text
  stands behind that of the effects.

Results:
* `grows_of_prefix`: a catalog grows with the list of its descriptions.
* `derives_of_grows`: what derives from the grammar still does, with the same tree.
* `ofRows_of_grows`: the cards of a table are the same.
* `decode_of_continued`: content that can be decoded still can, with the same cards.
-/

set_option autoImplicit false

namespace CardContent

/-! ## Catalogs -/

namespace Catalog

/-- Every description keeps its number. -/
def Grows (catalog grown : Catalog) : Prop :=
  ∀ index description, catalog.get? index = some description →
    grown.get? index = some description

/-- **A catalog grows with the list of its descriptions.** -/
theorem grows_of_prefix {old new : List String} (h : old <+: new) :
    Grows (.ofList old) (.ofList new) := by
  obtain ⟨behind, rfl⟩ := h
  intro index description hget
  rw [get?_ofList] at hget ⊢
  split at hget
  · cases hget
  · rename_i hindex
    obtain ⟨hlt, -⟩ := List.getElem?_eq_some_iff.mp hget
    rw [if_neg hindex, List.getElem?_append_left hlt]
    exact hget

end Catalog

variable {catalog grown : Catalog}

/-! ## Effects -/

namespace Effect

mutual

/-- **What derives still does.** By induction on the derivation. -/
theorem derives_of_grows (h : catalog.Grows grown) : ∀ {token : List Char} {e : Effect},
    Derives catalog token e → Derives grown token e
  | _, _, .simple hnumber hname hlow hhigh hdescription hparam hargs => by
    have hget := Catalog.get?_eq_some_iff.mpr ⟨hlow, hhigh, hdescription⟩
    obtain ⟨hlow, hhigh, hdescription⟩ := Catalog.get?_eq_some_iff.mp (h _ _ hget)
    exact .simple hnumber hname hlow hhigh hdescription hparam hargs
  | _, _, .compound hparts => .compound (derivesParts_of_grows h hparts)

theorem derivesParts_of_grows (h : catalog.Grows grown) : ∀ {text : List Char} {es : List Effect},
    DerivesParts catalog text es → DerivesParts grown text es
  | _, _, .last he htext => .last (derives_of_grows h he) htext
  | _, _, .cons he htext hrest =>
    .cons (derives_of_grows h he) htext (derivesParts_of_grows h hrest)

end

theorem parse_of_grows (h : catalog.Grows grown) {token : String} {e : Effect}
    (hparse : parse catalog token = .ok e) : parse grown token = .ok e :=
  readChars_of_derives (derives_of_grows h (derives_of_readChars token.toList hparse))

theorem parseAll_of_grows (h : catalog.Grows grown) {tokens : List String} {es : List Effect}
    (hparse : parseAll catalog tokens = .ok es) : parseAll grown tokens = .ok es :=
  mapM_eq_ok_iff.mpr ((mapM_eq_ok_iff.mp hparse).imp fun _ _ => parse_of_grows h)

end Effect

/-! ## Cards -/

namespace Card

/-- **A row is the same card** against a catalog that has grown. -/
theorem ofRow_of_grows (h : catalog.Grows grown) {kind : Kind} {place : Option Nat}
    {row : Csv.Row} {card : Card} (hrow : ofRow kind catalog place row = .ok card) :
    ofRow kind grown place row = .ok card := by
  obtain ⟨hkind, leading, columns, hleading, rfl, heffect⟩ := ofRow_eq_ok_iff.mp hrow
  obtain ⟨es, hes, hjoint⟩ := effectOfColumns_eq_ok_iff.mp heffect
  refine ofRow_eq_ok_iff.mpr ⟨hkind, leading, columns, hleading, rfl, ?_⟩
  exact effectOfColumns_eq_ok_iff.mpr ⟨es, Effect.parseAll_of_grows h hes, hjoint⟩

theorem ofRows_of_grows (h : catalog.Grows grown) {kind : Kind} {rows : List Csv.Row}
    {cards : List Card} (hrows : ofRows kind catalog rows = .ok cards) :
    ofRows kind grown rows = .ok cards :=
  ofRows_eq_ok_iff.mpr ((ofRows_eq_ok_iff.mp hrows).imp fun _ _ => ofRow_of_grows h)

end Card

/-! ## Sources -/

/-- A source has a text of effects, and the other one has more text behind it, on lines of its own,
and the same tables. -/
structure Source.Continued (source grown : Source) (text more : String) : Prop where
  before : (source.lines Resource.effects.name).outcome = .ok (Text.lines text)
  behind : (grown.lines Resource.effects.name).outcome =
    .ok (Text.lines (text ++ "\n" ++ more))
  tables : ∀ kind, (grown.rows (Resource.cards kind).name).outcome =
    (source.rows (Resource.cards kind).name).outcome

/-- Texts in memory, of which that of the effects is continued. -/
theorem Source.continued_memory {textOf grownOf : String → Option String} {text more : String}
    (hbefore : textOf Resource.effects.name = some text)
    (hbehind : grownOf Resource.effects.name = some (text ++ "\n" ++ more))
    (htables : ∀ kind, grownOf (Resource.cards kind).name = textOf (Resource.cards kind).name) :
    (memory textOf).Continued (memory grownOf) text more where
  before := outcome_lines_memory hbefore
  behind := outcome_lines_memory hbehind
  tables kind := by simp only [memory, htables]

/-- Files of a folder, of which that of the effects is continued. -/
theorem Source.continued_folder {root : String}
    {fileAt grownAt : String → Except FileFault ByteArray} {text more : String}
    (hbefore : ∃ bytes, fileAt (pathIn root Resource.effects.name) = .ok bytes ∧
      Utf8.text? bytes = some text)
    (hbehind : ∃ bytes, grownAt (pathIn root Resource.effects.name) = .ok bytes ∧
      Utf8.text? bytes = some (text ++ "\n" ++ more))
    (htables : ∀ kind, grownAt (pathIn root (Resource.cards kind).name) =
      fileAt (pathIn root (Resource.cards kind).name)) :
    (folder root fileAt).Continued (folder root grownAt) text more := by
  obtain ⟨bytes, hbytes, htext⟩ := hbefore
  obtain ⟨grownBytes, hgrownBytes, hgrownText⟩ := hbehind
  constructor
  · exact outcome_lines_folder hbytes htext
  · exact outcome_lines_folder hgrownBytes hgrownText
  · intro kind
    simp only [folder, htables]

/-! ## Contents -/

namespace Content

/-- **More descriptions leave the cards as they are**: if content can be decoded and more text is
written behind that of the effects, on lines of its own, then the new content can be decoded and has
the same cards, and every number that had a description has the same one still. The lines that there
were stand in front of the new ones. -/
theorem decode_of_continued [Name.Spelling] (source grown : Source) (text more : String)
    (content : Content)
    (h : source.Continued grown text more) (hcontent : (decode source).outcome = .ok content) :
    ∃ after, (decode grown).outcome = .ok after ∧
      after.cards = content.cards ∧ after.compendium = content.compendium ∧
      (∀ index description, content.catalog.get? index = some description →
        after.catalog.get? index = some description) ∧
      content.catalog = .ofList (Text.lines text) ∧
      after.catalog = .ofList (Text.lines (text ++ "\n" ++ more)) ∧
      Text.lines text <+: Text.lines (text ++ "\n" ++ more) := by
  obtain ⟨lines, rows, cards, hdecoded⟩ := decode_eq_ok_iff.mp hcontent
  obtain rfl : lines = Text.lines text := Except.ok.inj (hdecoded.read.symm.trans h.before)
  have hprefix := Text.lines_prefix_append text more
  have hgrows := Catalog.grows_of_prefix hprefix
  have hafter : Decoded grown ⟨.ofList (Text.lines (text ++ "\n" ++ more)), content.compendium⟩
      (Text.lines (text ++ "\n" ++ more)) rows cards :=
    { read := h.behind
      tables := fun kind => (h.tables kind).trans (hdecoded.tables kind)
      made := fun kind => Card.ofRows_of_grows hgrows (hdecoded.made kind)
      catalog := rfl
      compendium := hdecoded.compendium }
  refine ⟨_, decode_eq_ok_iff.mpr ⟨_, rows, cards, hafter⟩, rfl, rfl, ?_, hdecoded.catalog, rfl,
    hprefix⟩
  rw [hdecoded.catalog]
  exact hgrows

section Example

open scoped Name.Table

/-- The description that is added. -/
def seerMore : String :=
  "Banish a card.\r\n"

/-- The blank lines behind the descriptions become lines. -/
theorem decode_of_continued_seer :
    let content : Content := ⟨.ofList ["Gain 1 rune.", "Draw a card."], .ofCards [seer]⟩
    (decode (.memory (seerTexts seerEffects))).outcome = .ok content ∧
      ∃ after,
        (decode (.memory (seerTexts (seerEffects ++ "\n" ++ seerMore)))).outcome = .ok after ∧
          after.cards = [seer] ∧ after.catalog =
            .ofList ["Gain 1 rune.", "Draw a card.", "", " ", "", "Banish a card."] := by
  intro content
  have hdecode : (decode (.memory (seerTexts seerEffects))).outcome = .ok content := by cbv
  have hcontinued : (Source.memory (seerTexts seerEffects)).Continued
      (.memory (seerTexts (seerEffects ++ "\n" ++ seerMore))) seerEffects seerMore :=
    Source.continued_memory rfl rfl fun kind => by cases kind <;> rfl
  obtain ⟨after, hafter, hcards, -, -, -, hcatalog, -⟩ :=
    decode_of_continued _ _ seerEffects seerMore content hcontinued hdecode
  have hlines : Text.lines (seerEffects ++ "\n" ++ seerMore) =
      ["Gain 1 rune.", "Draw a card.", "", " ", "", "Banish a card."] := by decide
  exact ⟨hdecode, after, hafter, hcards, hcatalog.trans (congrArg Catalog.ofList hlines)⟩

end Example

end Content

end CardContent
