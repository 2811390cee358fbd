import CardContent.Card.Json
import CardContent.Proofs.Effect.Json
import Mathlib

/-!
# Cards read back

What is written of a card is read back as the card. So is everything that differs from it by the
order of fields, by fields that are unknown to the variant of the card or of an effect, by a missing
`param` that is null, and by tags of effects that are numbers; and of objects nothing else is.

* `tidy retag value` drops the unknown fields of the card and tidies its effect.
* `IsPlain value` says that the card is an object and its effect is plain.

Results:
* `Kind.ofJson?_eq_some_iff`: the tag of a card is the name of its kind.
* `ofJson?_obj_eq_some_iff`: the fields of which a card is read.
* `read_iff_tidied`: which values a card is read of.
* `numbered_tag_read`: such a value need not have the tags that are written of the card.
-/

set_option autoImplicit false

namespace CardContent

/-- **The tag of a card** is the name of its kind; its place in the list will not do. -/
theorem Kind.ofJson?_eq_some_iff {tag : Json} {kind : Kind} :
    Kind.ofJson? tag = some kind ↔ tag = .str kind.name := by
  constructor
  · intro h
    unfold Kind.ofJson? at h
    cases tag with
    | str s =>
      simp only [Json.tag?, tags, List.idxOf?, List.findIdx?_cons, List.findIdx?_nil, beq_iff_eq,
        Option.map_if, Option.map_none, zero_add] at h
      by_cases hfirst : acquirable.name = s
      · rw [if_pos hfirst] at h
        cases h
        rw [hfirst]
      · by_cases hsecond : defeatable.name = s
        · rw [if_neg hfirst, if_pos hsecond] at h
          cases h
          rw [hsecond]
        · rw [if_neg hfirst, if_neg hsecond] at h
          cases h
    | int n => simp [Json.tag?] at h
    | null | bool | real | arr | obj => simp [Json.tag?] at h
  · rintro rfl
    cases kind <;> rfl

namespace Card

variable {fields : List (String × Json)} {card : Card} {retag : Json → Json}

/-! ## Tidying -/

/-- What becomes of a field of a card by its name; nothing of one that is unknown. -/
def fieldChange (retag : Json → Json) (kind : Kind) : String → Option (Json → Json)
  | "kind" | "name" | "cost" | "card_type" => some id
  | "honor" =>
    match kind with
    | .acquirable => some id
    | .defeatable => none
  | "effect" => some (Effect.tidy retag)
  | _ => none

/-- The kind that the `kind` of an object tells. -/
def kind? (fields : List (String × Json)) : Option Kind :=
  (fields.lookup "kind").bind Kind.ofJson?

/-- A card without unknown fields, with a tidy effect. -/
def tidy (retag : Json → Json) : Json → Json
  | .obj fields =>
    match kind? fields with
    | some kind => .obj (Json.restate (fieldChange retag kind) fields)
    | none => .obj fields
  | value => value

/-- The card is an object, and its effect is plain. -/
def IsPlain (value : Json) : Prop :=
  ∃ fields, value = .obj fields ∧
    ∀ effect, fields.lookup "effect" = some effect → Effect.IsPlain effect

/-- The names of the fields of a card. -/
def fieldNames : List String := ["kind", "name", "cost", "honor", "card_type", "effect"]

theorem kind?_eq_some_iff {kind : Kind} :
    kind? fields = some kind ↔ fields.lookup "kind" = some (.str kind.name) := by
  rw [kind?, Option.bind_eq_some_iff]
  simp [Kind.ofJson?_eq_some_iff]

theorem lookup_kind_toJson (card : Card) : ∃ others, card.toJson = .obj others ∧
    others.lookup "kind" = some (.str card.kind.name) := by
  obtain ⟨name, cost, type, role, effect⟩ := card
  cases role <;> exact ⟨_, rfl, rfl⟩

theorem lookup_toJson_eq_none {others : List (String × Json)} (h : card.toJson = .obj others)
    {name : String} (hname : name ∉ fieldNames) : others.lookup name = none := by
  simp only [fieldNames, List.mem_cons, List.not_mem_nil, or_false, not_or] at hname
  unfold toJson at h
  split at h
  · cases h
    simp [List.lookup_cons, beq_false_of_ne, hname]
  · cases h
    simp [List.lookup_cons, beq_false_of_ne, hname]

/-! ## Reading -/

theorem acquirableOfValues?_eq_some_iff {name cost honor type effect : Json} :
    acquirableOfValues? name cost honor type effect = some card ↔
      name = .str card.name ∧ cost = .str card.cost.text ∧
      (∃ value, card.role = .acquirable value ∧ honor = .int value.toInt) ∧
      type = .str card.type ∧ Effect.ofJsonAt? true effect = some card.effect := by
  obtain ⟨cardName, ⟨cardCost⟩, cardType, role, cardEffect⟩ := card
  simp only [acquirableOfValues?, Option.bind_eq_bind, Option.bind_eq_some_iff, Option.pure_def,
    Option.some.injEq, Card.mk.injEq, Cost.mk.injEq, Json.text?_eq_some_iff,
    Json.int32?_eq_some_iff]
  constructor
  · rintro ⟨_, rfl, _, rfl, value, rfl, _, rfl, _, heffect, rfl, rfl, rfl, rfl, rfl⟩
    exact ⟨rfl, rfl, ⟨value, rfl, rfl⟩, rfl, heffect⟩
  · rintro ⟨rfl, rfl, ⟨value, rfl, rfl⟩, rfl, heffect⟩
    exact ⟨_, rfl, _, rfl, value, rfl, _, rfl, _, heffect, rfl, rfl, rfl, rfl, rfl⟩

theorem defeatableOfValues?_eq_some_iff {name cost type effect : Json} :
    defeatableOfValues? name cost type effect = some card ↔
      name = .str card.name ∧ cost = .str card.cost.text ∧ card.role = .defeatable ∧
      type = .str card.type ∧ Effect.ofJsonAt? true effect = some card.effect := by
  obtain ⟨cardName, ⟨cardCost⟩, cardType, role, cardEffect⟩ := card
  simp only [defeatableOfValues?, Option.bind_eq_bind, Option.bind_eq_some_iff, Option.pure_def,
    Option.some.injEq, Card.mk.injEq, Cost.mk.injEq, Json.text?_eq_some_iff]
  constructor
  · rintro ⟨_, rfl, _, rfl, _, rfl, _, heffect, rfl, rfl, rfl, rfl, rfl⟩
    exact ⟨rfl, rfl, rfl, rfl, heffect⟩
  · rintro ⟨rfl, rfl, rfl, rfl, heffect⟩
    exact ⟨_, rfl, _, rfl, _, rfl, _, heffect, rfl, rfl, rfl, rfl, rfl⟩

/-- **The fields of which a card is read.** -/
theorem ofJson?_obj_eq_some_iff :
    ofJson? (.obj fields) = some card ↔
      kind? fields = some card.kind ∧
      fields.lookup "name" = some (.str card.name) ∧
      fields.lookup "cost" = some (.str card.cost.text) ∧
      (∀ honor, card.role = .acquirable honor → fields.lookup "honor" = some (.int honor.toInt)) ∧
      fields.lookup "card_type" = some (.str card.type) ∧
      ∃ effect, fields.lookup "effect" = some effect ∧
        Effect.ofJsonAt? true effect = some card.effect := by
  simp only [ofJson?, Option.bind_eq_bind, Option.bind_eq_some_iff]
  constructor
  · rintro ⟨tag, htag, kind, hkind, h⟩
    have htold : kind? fields = some kind := by rw [kind?, htag]; exact hkind
    cases kind with
    | acquirable =>
      simp only [Option.bind_eq_some_iff, acquirableOfValues?_eq_some_iff] at h
      obtain ⟨_, hname, _, hcost, _, hhonor, _, htype, effect, heffect, rfl, rfl,
        ⟨value, hrole, rfl⟩, rfl, hread⟩ := h
      refine ⟨?_, hname, hcost, fun honor hsame => ?_, htype, effect, heffect, hread⟩
      · rw [htold, kind, hrole]
        rfl
      · obtain rfl : value = honor := Role.acquirable.inj (hrole.symm.trans hsame)
        exact hhonor
    | defeatable =>
      simp only [Option.bind_eq_some_iff, defeatableOfValues?_eq_some_iff] at h
      obtain ⟨_, hname, _, hcost, _, htype, effect, heffect, rfl, rfl, hrole, rfl, hread⟩ := h
      refine ⟨?_, hname, hcost, fun honor hsame => ?_, htype, effect, heffect, hread⟩
      · rw [htold, kind, hrole]
        rfl
      · rw [hrole] at hsame
        cases hsame
  · rintro ⟨hkind, hname, hcost, hhonor, htype, effect, heffect, hread⟩
    obtain ⟨tag, htag, htold⟩ := Option.bind_eq_some_iff.mp hkind
    refine ⟨tag, htag, card.kind, htold, ?_⟩
    cases hrole : card.role with
    | acquirable honor =>
      rw [kind, hrole, Role.kind]
      simp only [Option.bind_eq_some_iff, acquirableOfValues?_eq_some_iff]
      exact ⟨_, hname, _, hcost, _, hhonor honor hrole, _, htype, effect, heffect, rfl, rfl,
        ⟨honor, hrole, rfl⟩, rfl, hread⟩
    | defeatable =>
      rw [kind, hrole, Role.kind]
      simp only [Option.bind_eq_some_iff, defeatableOfValues?_eq_some_iff]
      exact ⟨_, hname, _, hcost, _, htype, effect, heffect, rfl, rfl, hrole, rfl, hread⟩

/-! ## Reading and tidying -/

theorem fieldChange_eq_none {kind : Kind} {name : String} (h : name ∉ fieldNames) :
    fieldChange retag kind name = none := by
  unfold fieldChange
  split <;> simp_all [fieldNames]

theorem tidy_obj_of_kind {kind : Kind} (h : kind? fields = some kind) :
    tidy retag (.obj fields) = .obj (Json.restate (fieldChange retag kind) fields) := by
  simp only [tidy, h]

/-- Tidying leaves the tag of a card as it is. -/
theorem exists_lookup_kind_tidy (retag : Json → Json) (fields : List (String × Json)) :
    ∃ others, tidy retag (.obj fields) = .obj others ∧
      others.lookup "kind" = fields.lookup "kind" := by
  cases hkind : kind? fields with
  | some kind =>
    refine ⟨_, tidy_obj_of_kind hkind, ?_⟩
    simp [Json.lookup_restate, fieldChange]
  | none => exact ⟨fields, by simp only [tidy, hkind], rfl⟩

/-- What is tidied to something written is of the kind of what was written. -/
theorem kind?_of_tidy (h : Json.Alike (tidy retag (.obj fields)) card.toJson) :
    kind? fields = some card.kind := by
  obtain ⟨others, hothers, hkind⟩ := exists_lookup_kind_tidy retag fields
  obtain ⟨written, hwritten, htag⟩ := lookup_kind_toJson card
  rw [hothers, hwritten] at h
  have hrel := h.lookup "kind"
  rw [hkind, htag, Json.relAlike_some_iff_of_isScalar (Json.isScalar_str _)] at hrel
  exact kind?_eq_some_iff.mpr hrel

theorem exists_obj_of_tidy {value : Json} (h : Json.Alike (tidy retag value) card.toJson) :
    ∃ fields, value = .obj fields := by
  obtain ⟨written, hwritten, -⟩ := lookup_kind_toJson card
  rw [hwritten] at h
  obtain ⟨others, hothers⟩ := Json.exists_obj_of_alike h
  cases value with
  | obj fields => exact ⟨fields, rfl⟩
  | null | bool | int | real | str | arr => simp [tidy] at hothers

theorem relAlike_effect_iff {found : Option Json} {e : Effect} :
    Option.Rel Json.Alike (found.map (Effect.tidy retag)) (some e.toJson) ↔
      ∃ effect, found = some effect ∧ Json.Alike (Effect.tidy retag effect) e.toJson := by
  cases found <;> simp

/-- **A tidied card** is what is written of a card exactly if the fields are the same and the effect
is tidied to what is written of the effect. -/
theorem alike_tidy_iff (h : kind? fields = some card.kind) :
    Json.Alike (tidy retag (.obj fields)) card.toJson ↔
      fields.lookup "name" = some (.str card.name) ∧
      fields.lookup "cost" = some (.str card.cost.text) ∧
      (∀ honor, card.role = .acquirable honor → fields.lookup "honor" = some (.int honor.toInt)) ∧
      fields.lookup "card_type" = some (.str card.type) ∧
      ∃ effect, fields.lookup "effect" = some effect ∧
        Json.Alike (Effect.tidy retag effect) card.effect.toJson := by
  have hfields : ∀ name ∉ fieldNames,
      (Json.restate (fieldChange retag card.kind) fields).lookup name = none :=
    fun name hname => Json.lookup_restate_eq_none (fieldChange_eq_none hname) fields
  have hothers : ∀ others, card.toJson = .obj others →
      ∀ name ∉ fieldNames, others.lookup name = none :=
    fun others hwritten name hname => lookup_toJson_eq_none hwritten hname
  have htag := kind?_eq_some_iff.mp h
  rw [tidy_obj_of_kind h]
  obtain ⟨cardName, cost, type, role, effect⟩ := card
  cases role with
  | acquirable honor =>
    have hkind : fields.lookup "kind" = some (.str Kind.acquirable.name) := htag
    rw [toJson, Json.alike_obj_iff fieldNames hfields (hothers _ rfl)]
    simp [fieldNames, Json.lookup_restate, fieldChange, kind, Role.kind, List.lookup_cons,
      relAlike_effect_iff, hkind]
  | defeatable =>
    have hkind : fields.lookup "kind" = some (.str Kind.defeatable.name) := htag
    rw [toJson, Json.alike_obj_iff fieldNames hfields (hothers _ rfl)]
    simp [fieldNames, Json.lookup_restate, fieldChange, kind, Role.kind, List.lookup_cons,
      relAlike_effect_iff, hkind]

/-- **A card is read of a plain value** exactly if tidying makes of the value what is written of the
card. -/
theorem plain_and_read_iff (card : Card) (value : Json) :
    (IsPlain value ∧ ofJson? value = some card) ↔
      Json.Alike (tidy Effect.spelled value) card.toJson := by
  constructor
  · rintro ⟨⟨fields, rfl, hplain⟩, hread⟩
    obtain ⟨hkind, hname, hcost, hhonor, htype, effect, heffect, hreadEffect⟩ :=
      ofJson?_obj_eq_some_iff.mp hread
    exact (alike_tidy_iff hkind).mpr ⟨hname, hcost, hhonor, htype, effect, heffect,
      (Effect.plain_and_read_iff card.effect effect).mp ⟨hplain effect heffect, hreadEffect⟩⟩
  · intro halike
    obtain ⟨fields, rfl⟩ := exists_obj_of_tidy halike
    have hkind := kind?_of_tidy halike
    obtain ⟨hname, hcost, hhonor, htype, effect, heffect, halikeEffect⟩ :=
      (alike_tidy_iff hkind).mp halike
    obtain ⟨hplain, hread⟩ := (Effect.plain_and_read_iff card.effect effect).mpr halikeEffect
    refine ⟨⟨fields, rfl, fun other hother => ?_⟩, ofJson?_obj_eq_some_iff.mpr
      ⟨hkind, hname, hcost, hhonor, htype, effect, heffect, hread⟩⟩
    obtain rfl : effect = other := Option.some.inj (heffect.symm.trans hother)
    exact hplain

/-- What is written of a card is tidy. -/
theorem tidy_toJson (card : Card) : tidy Effect.spelled card.toJson = card.toJson := by
  obtain ⟨name, cost, type, role, effect⟩ := card
  cases role with
  | acquirable honor =>
    rw [toJson, tidy_obj_of_kind rfl]
    simp [Json.restate, fieldChange, Effect.tidy_toJson]
  | defeatable =>
    rw [toJson, tidy_obj_of_kind rfl]
    simp [Json.restate, fieldChange, Effect.tidy_toJson]

/-- **What is written of a card is read back.** -/
theorem ofJson?_toJson (card : Card) : ofJson? card.toJson = some card := by
  have halike : Json.Alike (tidy Effect.spelled card.toJson) card.toJson := by
    rw [tidy_toJson]
    exact .refl _
  exact ((plain_and_read_iff card card.toJson).mpr halike).2

/-- **What a card is read of.** A card is read of what is written of it. And it is read of just
those plain values of which the same is left, up to the order of fields, if in the card and in all
effects in it the unknown fields are dropped, null is put in for a missing `param`, and the name of
the variant is put in for its number in the tags of effects. -/
theorem read_iff_tidied (card : Card) :
    ofJson? card.toJson = some card ∧
      ∀ value, (IsPlain value ∧ ofJson? value = some card) ↔
        Json.Alike (tidy Effect.spelled value) card.toJson :=
  ⟨ofJson?_toJson card, plain_and_read_iff card⟩

example : ofJson? (.obj [("set", .str "Storm"), ("kind", .str "defeatable"),
    ("name", .str "Cultist"), ("cost", .str "2"), ("card_type", .str "Monster"),
    ("honor", .real "0.5"),
    ("effect", .obj [("type", .str "compound"), ("kind", .str "OR"), ("optional", .bool true),
      ("children", .arr [.obj [("optional", .bool false), ("type", .str "simple"), ("kind", .int 7),
        ("index", .int 1), ("description", .str "Gain.")]])])]) =
    some ⟨"Cultist", ⟨"2"⟩, "Monster", .defeatable,
      .compound .one [.simple ⟨1, "Gain.", none, false⟩] true⟩ := by rfl

/-- A card with the number of a variant for its name. -/
def numbered : Json :=
  .obj [("kind", .str "defeatable"), ("name", .str "Cultist"), ("cost", .str "2"),
    ("card_type", .str "Monster"),
    ("effect", .obj [("type", .int 0), ("index", .int 1), ("description", .str "Gain."),
      ("param", .null), ("optional", .bool false)])]

/-- **Numbers of variants are read**, though never written. The value has the fields that are known
and no other; yet what is written of the card is another value. -/
theorem numbered_tag_read : ∃ card,
    IsPlain numbered ∧ ofJson? numbered = some card ∧ tidy id numbered = numbered ∧
      ¬ Json.Alike (tidy id numbered) card.toJson := by
  refine ⟨⟨"Cultist", ⟨"2"⟩, "Monster", .defeatable, .simple ⟨1, "Gain.", none, false⟩⟩,
    ⟨_, rfl, fun effect heffect => ?_⟩, rfl, rfl, fun halike => ?_⟩
  · cases heffect
    exact .obj (fun h => by cases h) (fun h => by cases h)
  · have heffect : Option.Rel Json.Alike (some _) (some _) := halike.lookup "effect"
    have htag : Option.Rel Json.Alike (some (.int 0)) (some (.str "simple")) :=
      (Option.rel_some_some.mp heffect).lookup "type"
    simp at htag

end Card

end CardContent
