import CardContent.Log.Verbosity
import CardContent.Name.Table
import CardContent.Proofs.Compendium
import CardContent.Proofs.Content.Decode
import Mathlib

/-!
# The log of a decoding accounts for its outcome

Decoding first reads all that it needs (`reading`) and then makes content of what it has read
(`building`). What it logs while it reads is what its source logs, and how many descriptions there
are. Of what it makes it gives an account if nothing went wrong: each card, how many cards there
are, and each card whose name was taken. If anything goes wrong, there is no account at all.

* `repeats key xs` are the members of a list that have the key of an earlier one.
* `account content` is the account of a content, and `accountRecords` are its records.
* `AccountOf source content` says what is logged when a source gives a content.
* `Discreet source` says that a source logs details only. Both sources of this library do.

Results:
* `length_repeats_add_card_toFinset`: members with the key of an earlier one, and different keys.
* `shadowing_empty`: the names that are taken are those of cards with the key of an earlier one.
* `events_building`, `events_decode_of_error`: what is built is accounted for, and a failure is not.
* `eventsAt_decode`: the account of a content by itself, if the source logs details only.
* `log_accounts_for_content`: all of this about one source.
-/

set_option autoImplicit false

namespace CardContent

/-! ## Keys that occur again -/

section Repeats

variable {α : Type} (key : α → String)

/-- The members that have the key of an earlier one, in order. -/
def repeats (xs : List α) : List α :=
  (xs.zipIdx.filter fun x => (xs.take x.2).any fun earlier => key earlier = key x.1).map Prod.fst

theorem repeats_append_singleton (xs : List α) (x : α) :
    repeats key (xs ++ [x]) =
      repeats key xs ++ if xs.any (fun earlier => key earlier = key x) then [x] else [] := by
  have hfront : ∀ y ∈ xs.zipIdx, (xs ++ [x]).take y.2 = xs.take y.2 := fun y hy => by
    have hlt : y.2 < xs.length := by simpa using List.snd_lt_add_of_mem_zipIdx hy
    rw [List.take_append_of_le_length hlt.le]
  unfold repeats
  rw [List.zipIdx_append, List.filter_append, List.map_append]
  congr 1
  · refine congrArg _ (List.filter_congr fun y hy => ?_)
    rw [hfront y hy]
  · rw [List.zipIdx_singleton, Nat.zero_add, List.filter_singleton, List.take_left]
    cases xs.any fun earlier => key earlier = key x <;> rfl

/-- **Every member has the key of an earlier one, or a key of its own.** -/
theorem length_repeats_add_card_toFinset (xs : List α) :
    (repeats key xs).length + (xs.map key).toFinset.card = xs.length := by
  induction xs using List.reverseRec with
  | nil => rfl
  | append_singleton xs x ih =>
    have hkeys : ((xs ++ [x]).map key).toFinset = insert (key x) (xs.map key).toFinset := by
      rw [List.map_append, List.toFinset_append, List.map_singleton, List.toFinset_cons,
        List.toFinset_nil, Finset.union_comm]
      rfl
    rw [repeats_append_singleton, hkeys, List.length_append, List.length_append]
    by_cases hx : ∃ earlier ∈ xs, key earlier = key x
    · have hmem : key x ∈ (xs.map key).toFinset :=
        List.mem_toFinset.mpr (List.mem_map.mpr hx)
      rw [if_pos (by simpa using hx), Finset.insert_eq_of_mem hmem]
      simp only [List.length_singleton]
      omega
    · have hmem : key x ∉ (xs.map key).toFinset := fun hmem =>
        hx (List.mem_map.mp (List.mem_toFinset.mp hmem))
      rw [if_neg (by simpa using hx), Finset.card_insert_of_notMem hmem]
      simp only [List.length_nil, List.length_singleton]
      omega

end Repeats

namespace Compendium

variable [Name.Spelling]

theorem shadowing_append_singleton (c : Compendium) (cards : List Card) (card : Card) :
    c.shadowing (cards ++ [card]) =
      c.shadowing cards ++ if (c.addAll cards).knows card.name then [card] else [] := by
  induction cards generalizing c with
  | nil => rfl
  | cons first rest ih =>
    rw [List.cons_append, shadowing, shadowing, ih]
    by_cases hknown : c.knows first.name = true
    · rw [if_pos hknown, if_pos hknown]
      rfl
    · rw [if_neg hknown, if_neg hknown]
      rfl

theorem knows_eq_any (cards : List Card) (card : Card) : (ofCards cards).knows card.name =
    cards.any fun earlier => Name.key earlier.name = Name.key card.name := by
  rw [knows_ofCards, card?_ofCards, Bool.eq_iff_iff, List.getLast?_isSome, List.any_eq_true,
    ne_eq, List.filter_eq_nil_iff]
  simp only [not_forall, not_not, exists_prop]

/-- **The names that are taken** are those of the cards with the key of an earlier one. -/
theorem shadowing_empty (cards : List Card) :
    shadowing Roster.empty cards = repeats (fun card => Name.key card.name) cards := by
  induction cards using List.reverseRec with
  | nil => rfl
  | append_singleton cards card ih =>
    rw [shadowing_append_singleton, repeats_append_singleton, ih]
    rw [show addAll Roster.empty cards = ofCards cards from rfl, knows_eq_any]

end Compendium

/-! ## Computations that log -/

namespace Logged

variable {α β γ : Type}

/-- The events of a level. -/
def eventsAt (x : Logged α) (level : Log.Level) : List Event :=
  x.events.filter fun event => event.level = level

theorem events_bind_of_ok {x : Logged α} {a : α} (h : x.outcome = .ok a) (next : α → Logged β) :
    (x >>= next).events = x.events ++ (next a).events := by
  show (andThen x next).events = _
  unfold andThen
  rw [h]

theorem events_bind_of_error {x : Logged α} {e : Error} (h : x.outcome = .error e)
    (next : α → Logged β) : (x >>= next).events = x.events := by
  show (andThen x next).events = _
  unfold andThen
  rw [h]

/-- What is logged in two steps is logged in the one or in the other. -/
theorem mem_events_bind {x : Logged α} {next : α → Logged β} {event : Event}
    (h : event ∈ (x >>= next).events) :
    event ∈ x.events ∨ ∃ a, x.outcome = .ok a ∧ event ∈ (next a).events := by
  cases hx : x.outcome with
  | error e => exact .inl (events_bind_of_error hx next ▸ h)
  | ok a =>
    rw [events_bind_of_ok hx, List.mem_append] at h
    exact h.imp id fun hnext => ⟨a, rfl, hnext⟩

theorem andThen_assoc (x : Logged α) (next : α → Logged β) (last : β → Logged γ) :
    (x.andThen next).andThen last = x.andThen fun a => (next a).andThen last := by
  obtain ⟨events, outcome⟩ := x
  cases outcome with
  | error e => rfl
  | ok a =>
    cases hnext : (next a).outcome with
    | error e => simp only [andThen, hnext]
    | ok b => simp only [andThen, hnext, List.append_assoc]

instance : LawfulMonad Logged := LawfulMonad.mk' Logged
  (by
    rintro α ⟨events, outcome⟩
    cases outcome with
    | error e => rfl
    | ok a => exact congrArg (Logged.mk · _) (List.append_nil events))
  (fun _ _ => rfl)
  andThen_assoc

end Logged

/-! ## Sources -/

/-- A source logs an event when one of its resources is read. -/
def Source.Logs (source : Source) (event : Event) : Prop :=
  ∃ name, event ∈ (source.lines name).events ∨ event ∈ (source.rows name).events

/-- A source logs nothing but details. -/
def Source.Discreet (source : Source) : Prop :=
  ∀ event, source.Logs event → event.level = .debug

theorem Source.discreet_memory (textOf : String → Option String) : (memory textOf).Discreet := by
  rintro event ⟨name, h | h⟩
  all_goals
    unfold memory at h
    simp only at h
    split at h <;> cases h

theorem Source.discreet_folder (root : String) (fileAt : String → Except FileFault ByteArray) :
    (folder root fileAt).Discreet := by
  rintro event ⟨name, h | h⟩
  all_goals
    unfold folder at h
    simp only at h
    split at h
    case h_4 =>
      split at h
      · cases h
      · rw [List.mem_singleton.mp h]
        rfl
    all_goals cases h

namespace Content

variable {source : Source} {content : Content}

/-! ## Reading and building -/

/-- All that decoding reads, in front of the first row that is looked at. -/
def reading (source : Source) : Logged (List String × List Csv.Row × List Csv.Row) := do
  let lines ← source.lines Resource.effects.name
  Logged.log [.effectsLoaded ((Catalog.ofList lines).size - 1)]
  let acquirableRows ← source.rows (Resource.cards .acquirable).name
  let defeatableRows ← source.rows (Resource.cards .defeatable).name
  return (lines, acquirableRows, defeatableRows)

/-- What decoding makes of all that it has read. -/
def building [Name.Spelling] (lines : List String) (acquirableRows defeatableRows : List Csv.Row) :
    Logged Content := do
  let catalog := Catalog.ofList lines
  let acquirables ← Logged.ofExcept (Card.ofRows .acquirable catalog acquirableRows)
  let defeatables ← Logged.ofExcept (Card.ofRows .defeatable catalog defeatableRows)
  let cards := acquirables ++ defeatables
  Logged.log (cards.map .cardDecoded)
  Logged.log [.allDecoded cards.length acquirables.length (cards.length - acquirables.length)]
  Logged.log ((Compendium.shadowing Roster.empty cards).map fun card => .nameTaken card.name)
  return { catalog, compendium := .ofCards cards }

/-- **Decoding reads all that it needs, and then builds.** -/
theorem decode_eq_bind [Name.Spelling] (source : Source) :
    decode source = reading source >>= fun read =>
    building read.1 read.2.1 read.2.2 := by
  simp only [reading, bind_assoc, pure_bind]
  rfl

/-- While it reads, decoding logs what its source logs, and how many descriptions there are. -/
theorem mem_events_reading {event : Event} (h : event ∈ (reading source).events) :
    source.Logs event ∨ ∃ count, event = .effectsLoaded count := by
  rcases Logged.mem_events_bind h with h | ⟨lines, -, h⟩
  · exact .inl ⟨_, .inl h⟩
  rcases Logged.mem_events_bind h with h | ⟨-, -, h⟩
  · exact .inr ⟨_, List.mem_singleton.mp h⟩
  rcases Logged.mem_events_bind h with h | ⟨rows, -, h⟩
  · exact .inl ⟨_, .inr h⟩
  rcases Logged.mem_events_bind h with h | ⟨rows', -, h⟩
  · exact .inl ⟨_, .inr h⟩
  · cases h

theorem level_of_reading (hsource : source.Discreet) :
    ∀ event ∈ (reading source).events, event.level = .debug := by
  intro event hevent
  rcases mem_events_reading hevent with h | ⟨count, rfl⟩
  · exact hsource event h
  · rfl

theorem size_eq (content : Content) : content.compendium.size =
    (content.compendium.ofKind .acquirable).length +
      (content.compendium.ofKind .defeatable).length := by
  rw [Roster.size_eq_length, ← List.length_append]
  exact (Compendium.perm_ofKind rfl).length_eq.symm

/-- The largest verbosity shows all records. -/
theorem records_verbose (elapsed : String) (events : List Event) :
    Log.Verbosity.verbose.filter.records elapsed events = events.map (Event.record elapsed) := by
  have hall : ∀ event ∈ events, Log.Verbosity.verbose.filter.shows event.level = true :=
    fun event _ => by cases event <;> rfl
  rw [Log.Filter.records, List.filter_eq_self.mpr hall]

section Spelled

variable [Name.Spelling]

theorem outcome_reading {lines : List String} {rows : Kind → List Csv.Row}
    {cards : Kind → List Card} (h : Decoded source content lines rows cards) :
    (reading source).outcome = .ok (lines, rows .acquirable, rows .defeatable) := by
  simp only [reading, Logged.outcome_bind, h.read, h.tables]
  rfl

/-! ## Accounts -/

/-- The cards that have the key of an earlier one. -/
def repeatedCards (content : Content) : List Card :=
  repeats (fun card => Name.key card.name) content.cards

/-- The account of a content: its cards, how many there are in all and of each kind, and the cards
whose name was taken. -/
def account (content : Content) : List Event :=
  content.cards.map .cardDecoded ++
    .allDecoded content.compendium.size (content.compendium.ofKind .acquirable).length
        (content.compendium.ofKind .defeatable).length ::
      content.repeatedCards.map fun card => .nameTaken card.name

/-- The records of an account, decoding having taken the time `elapsed`. -/
def accountRecords (elapsed : String) (content : Content) : List Log.Record :=
  content.cards.map (fun card => ⟨.trace, "decoded " ++ card.display⟩) ++
    ⟨.info, "decoded " ++ Numeral.natText content.compendium.size ++ " cards (" ++
        Numeral.natText (content.compendium.ofKind .acquirable).length ++ " acquirable, " ++
        Numeral.natText (content.compendium.ofKind .defeatable).length ++ " defeatable) in " ++
        elapsed⟩ ::
      content.repeatedCards.map fun card =>
        ⟨.warn, "duplicate card name '" ++ card.name ++ "', later definition wins"⟩

/-- The records of an account tell of its events. -/
theorem map_record_account (elapsed : String) (content : Content) :
    content.account.map (Event.record elapsed) = content.accountRecords elapsed := by
  rw [account, accountRecords, List.map_append, List.map_cons, List.map_map, List.map_map]
  rfl

/-- **What is built is accounted for.** The cards that are not acquirable are the defeatable ones,
so that their number is counted by a subtraction. -/
theorem events_building {lines : List String} {rows : Kind → List Csv.Row}
    {cards : Kind → List Card} (h : Decoded source content lines rows cards) :
    (building lines (rows .acquirable) (rows .defeatable)).events = content.account := by
  have hsize : content.compendium.size = (cards .acquirable ++ cards .defeatable).length := by
    rw [Roster.size_eq_length, ← h.cards_eq]
    rfl
  have hrest : (cards .acquirable ++ cards .defeatable).length - (cards .acquirable).length =
      (cards .defeatable).length := by
    rw [List.length_append, Nat.add_sub_cancel_left]
  rw [account, repeatedCards, h.ofKind_eq, h.ofKind_eq, hsize, h.cards_eq,
    ← Compendium.shadowing_empty]
  simp only [building, h.made]
  show _ ++ (_ ++ (_ ++ [])) = _
  rw [List.append_nil, hrest]
  rfl

/-- What is not built is not accounted for. -/
theorem events_building_of_error {lines : List String} {rows rows' : List Csv.Row} {e : Error}
    (h : (building lines rows rows').outcome = .error e) :
    (building lines rows rows').events = [] := by
  unfold building at h ⊢
  cases hcards : Card.ofRows .acquirable (.ofList lines) rows with
  | error e => simp only [hcards]; rfl
  | ok cards =>
    cases hcards' : Card.ofRows .defeatable (.ofList lines) rows' with
    | error e => simp only [hcards, hcards']; rfl
    | ok cards' =>
      simp only [hcards, hcards'] at h
      cases h

/-! ## Decoding -/

theorem events_decode (h : (decode source).outcome = .ok content) :
    (decode source).events = (reading source).events ++ content.account := by
  obtain ⟨lines, rows, cards, hdecoded⟩ := decode_eq_ok_iff.mp h
  rw [decode_eq_bind, Logged.events_bind_of_ok (outcome_reading hdecoded), events_building hdecoded]

/-- **A decoding that fails gives no account.** -/
theorem events_decode_of_error {e : Error} (h : (decode source).outcome = .error e) :
    (decode source).events = (reading source).events := by
  rw [decode_eq_bind] at h ⊢
  cases hread : (reading source).outcome with
  | error e => exact Logged.events_bind_of_error hread _
  | ok read =>
    rw [Logged.outcome_bind, hread] at h
    rw [Logged.events_bind_of_ok hread, events_building_of_error h, List.append_nil]

/-- What is logged when a source gives a content. -/
structure AccountOf (source : Source) (content : Content) : Prop where
  /-- The account of the content stands behind what is logged while reading. -/
  events : (decode source).events = (reading source).events ++ content.account
  /-- At the largest verbosity all of it is shown, record by record. -/
  shown : ∀ elapsed, Log.Verbosity.verbose.filter.records elapsed (decode source).events =
    (reading source).events.map (Event.record elapsed) ++ content.accountRecords elapsed
  /-- The first number of the summary is the sum of the others. -/
  size : content.compendium.size =
    (content.compendium.ofKind .acquirable).length + (content.compendium.ofKind .defeatable).length
  /-- The third number is what is left of the first without the second, which is no more. -/
  rest : (content.compendium.ofKind .acquirable).length ≤ content.compendium.size ∧
    content.compendium.size - (content.compendium.ofKind .acquirable).length =
      (content.compendium.ofKind .defeatable).length
  /-- Each card has the key of an earlier one, or a key of its own. -/
  repeated : content.repeatedCards.length +
    (content.cards.map fun card => Name.key card.name).toFinset.card = content.cards.length
  /-- If the source logs details only, each card is traced once, in order. -/
  traces : source.Discreet → (decode source).eventsAt .trace = content.cards.map .cardDecoded
  /-- There is one summary then. -/
  summary : source.Discreet → (decode source).eventsAt .info =
    [.allDecoded content.compendium.size (content.compendium.ofKind .acquirable).length
      (content.compendium.ofKind .defeatable).length]
  /-- There is one warning for each card that has the key of an earlier one, in order. -/
  warnings : source.Discreet → (decode source).eventsAt .warn =
    content.repeatedCards.map fun card => .nameTaken card.name

/-- If the source logs details only, all that is weightier is of the account. -/
theorem eventsAt_decode (h : (decode source).outcome = .ok content) (hsource : source.Discreet)
    {level : Log.Level} (hlevel : level ≠ .debug) :
    (decode source).eventsAt level = content.account.filter fun event => event.level = level := by
  have hnone : ∀ event ∈ (reading source).events, ¬(decide (event.level = level) = true) := by
    intro event hevent hdec
    rw [level_of_reading hsource event hevent] at hdec
    exact hlevel (of_decide_eq_true hdec).symm
  rw [Logged.eventsAt, events_decode h, List.filter_append, List.filter_eq_nil_iff.mpr hnone,
    List.nil_append]

theorem accountOf_decode (h : (decode source).outcome = .ok content) :
    AccountOf source content where
  events := events_decode h
  shown elapsed := by
    rw [records_verbose, events_decode h, List.map_append, map_record_account]
  size := size_eq content
  rest := by
    rw [size_eq]
    exact ⟨Nat.le_add_right _ _, Nat.add_sub_cancel_left ..⟩
  repeated := length_repeats_add_card_toFinset _ content.cards
  traces hsource := by
    rw [eventsAt_decode h hsource (by decide)]
    simp [account, List.filter_map, Function.comp_def, Event.level]
  summary hsource := by
    rw [eventsAt_decode h hsource (by decide)]
    simp [account, List.filter_map, Function.comp_def, Event.level]
  warnings hsource := by
    rw [eventsAt_decode h hsource (by decide)]
    simp [account, List.filter_map, Function.comp_def, Event.level]

/-- **The log of a decoding accounts for its outcome**, whatever the source: a content is accounted
for card by card, kind by kind and name by name, behind all that is logged while reading, and a
failure is not accounted for at all. A source that logs details only, as texts in memory and files
in a folder do, leaves the weightier levels to the account, and to nothing on failure. -/
theorem log_accounts_for_content (source : Source) :
    (∀ content, (decode source).outcome = .ok content → AccountOf source content) ∧
      (∀ e, (decode source).outcome = .error e →
        (decode source).events = (reading source).events) ∧
      (∀ event ∈ (reading source).events,
        source.Logs event ∨ ∃ count, event = .effectsLoaded count) ∧
      (source.Discreet → ∀ e, (decode source).outcome = .error e →
        ∀ event ∈ (decode source).events, event.level = .debug) ∧
      (∀ textOf, (Source.memory textOf).Discreet) ∧
      ∀ root fileAt, (Source.folder root fileAt).Discreet := by
  refine ⟨fun _ => accountOf_decode, fun _ => events_decode_of_error, fun _ => mem_events_reading,
    fun hsource e h => ?_, Source.discreet_memory, Source.discreet_folder⟩
  rw [events_decode_of_error h]
  exact level_of_reading hsource

end Spelled

section Example

open scoped Name.Table

/-- Two tables in which one name is spelled in two ways. -/
def accentTexts : String → Option String
  | "effects.txt" => some "Gain 1 rune.\n"
  | "acquirable.csv" => some "Seer,3,1,Hero,1()\nMystic,3,1,Hero,1()\n"
  | "defeatable.csv" => some "SÉER,2,Monster,1(2)?\n"
  | _ => none

/-- The rows of `accentTexts`. -/
def accentRows : Kind → List Csv.Row
  | .acquirable => [["Seer", "3", "1", "Hero", "1()"], ["Mystic", "3", "1", "Hero", "1()"]]
  | .defeatable => [["SÉER", "2", "Monster", "1(2)?"]]

/-- The cards of `accentTexts`. -/
def accentCards : Kind → List Card
  | .acquirable =>
    [⟨"Seer", ⟨"3"⟩, "Hero", .acquirable 1, .simple ⟨1, "Gain 1 rune.", none, false⟩⟩,
      ⟨"Mystic", ⟨"3"⟩, "Hero", .acquirable 1, .simple ⟨1, "Gain 1 rune.", none, false⟩⟩]
  | .defeatable =>
    [⟨"SÉER", ⟨"2"⟩, "Monster", .defeatable, .simple ⟨1, "Gain 1 rune.", some 2, true⟩⟩]

theorem account_of_accents :
    ∃ content, (decode (.memory accentTexts)).outcome = .ok content ∧
      AccountOf (.memory accentTexts) content ∧
      content.repeatedCards.map Card.name = ["SÉER"] := by
  let content : Content :=
    ⟨.ofList ["Gain 1 rune."], .ofCards (accentCards .acquirable ++ accentCards .defeatable)⟩
  have hdecoded : Decoded (.memory accentTexts) content ["Gain 1 rune."] accentRows accentCards :=
    { read := rfl
      tables := fun kind => by cases kind <;> rfl
      made := fun kind => by cases kind <;> cbv
      catalog := rfl
      compendium := rfl }
  have hdecode := decode_eq_ok_iff.mpr ⟨_, _, _, hdecoded⟩
  refine ⟨content, hdecode, (log_accounts_for_content _).1 content hdecode, ?_⟩
  rw [repeatedCards, hdecoded.cards_eq]
  decide +kernel

end Example

end Content

end CardContent
