import CardContent.Proofs.Content.Failure
import CardContent.Proofs.Csv.Bytes
import CardContent.Proofs.Deck
import Mathlib

/-!
# A folder of texts is as good as the texts

Content may lie in a folder of files or in memory. A folder reads bytes where memory has characters;
where the bytes of a file are those of a text, both give the same. A name that has no text is
missing either way, and only the error says so in other words: that of a folder has the path.

* `HoldsAt root fileAt textOf name` says that the folder `root` has under a name what memory has.
* `filesOf root textOf` are the files of a folder in which there is nothing else than these texts.
* `Error.inFolder root` puts the path for the name of what is missing.

Results:
* `lines_folder`, `rows_folder`: what is read of a folder is what is read of the texts.
* `holdsAt_filesOf`: there is a folder for all texts.
* `Card.error_of_ofRow`, `Error.inFolder_of_ofLines`: errors behind reading name no resource.
* `decode_folder`, `read_folder`: so content and deck are the same.
* `folder_like_memory`: all of this about one folder.
-/

set_option autoImplicit false

namespace CardContent

/-! ## Errors behind reading -/

/-- An error of the effect columns names the row. -/
theorem Card.error_of_effectOfColumns {catalog : Catalog} {label : String} {columns : List String}
    {e : Error} (h : Card.effectOfColumns catalog label columns = .error e) :
    (∃ fault, e = .inCard label fault) ∨ ∃ fault, e = .row label fault := by
  unfold Card.effectOfColumns at h
  split at h
  · cases h
    exact Or.inl ⟨_, rfl⟩
  · cases h
    exact Or.inr ⟨_, rfl⟩
  · cases h
  · cases h

/-- **An error of a row names the row.** -/
theorem Card.error_of_ofRow {kind : Kind} {catalog : Catalog} {place : Option Nat} {row : Csv.Row}
    {e : Error} (h : Card.ofRow kind catalog place row = .error e) :
    (∃ fault, e = .inCard (Card.rowLabel place row) fault) ∨
      ∃ fault, e = .row (Card.rowLabel place row) fault := by
  unfold Card.ofRow at h
  simp only at h
  split at h
  · split at h
    · cases h
      exact Or.inr ⟨_, rfl⟩
    · rcases bind_eq_error_iff.mp h with h | ⟨effect, -, h⟩
      · exact Card.error_of_effectOfColumns h
      · cases h
  · rcases bind_eq_error_iff.mp h with h | ⟨effect, -, h⟩
    · exact Card.error_of_effectOfColumns h
    · cases h
  · cases h
    exact Or.inr ⟨_, rfl⟩

/-- An error with the path in a folder for the name of what is missing. -/
def Error.inFolder (root : String) : Error → Error
  | .missing name => .missing (pathIn root name)
  | e => e

theorem Error.inFolder_of_ofRow {kind : Kind} {catalog : Catalog} {place : Option Nat}
    {row : Csv.Row} {e : Error} (h : Card.ofRow kind catalog place row = .error e) (root : String) :
    e.inFolder root = e := by
  rcases Card.error_of_ofRow h with ⟨fault, rfl⟩ | ⟨fault, rfl⟩ <;> rfl

theorem Error.inFolder_of_ofLines [Name.Spelling] {lines : List String} {e : Error}
    (h : Deck.ofLines lines = .error e) (root : String) : e.inFolder root = e := by
  unfold Deck.ofLines at h
  rcases bind_eq_error_iff.mp h with h | ⟨entries, -, h⟩
  · obtain ⟨front, line, back, -, -, hline⟩ := mapM_eq_error_iff.mp h
    rw [DeckEntry.error_of_ofLine hline]
    rfl
  · cases h

/-! ## Files -/

namespace Source

/-- A folder has under a name what memory has: the bytes of the text, or no file. -/
def HoldsAt (root : String) (fileAt : String → Except FileFault ByteArray)
    (textOf : String → Option String) (name : String) : Prop :=
  fileAt (pathIn root name) =
    match textOf name with
    | some text => .ok text.toUTF8
    | none => .error .absent

/-- The files of a folder with these texts in it, and of no other folder. -/
def filesOf (root : String) (textOf : String → Option String) (path : String) :
    Except FileFault ByteArray :=
  match ((root ++ "/").toList.isPrefixOf? path.toList).bind fun name =>
    textOf (String.ofList name) with
  | some text => .ok text.toUTF8
  | none => .error .absent

theorem pathIn_eq {root name : String} (hroot : root ≠ "")
    (hslash : root.toList.getLast? ≠ some '/') (hname : name.toList.head? ≠ some '/') :
    pathIn root name = root ++ "/" ++ name := by
  have hempty : root.isEmpty = false := by
    rw [Bool.eq_false_iff]
    exact fun h => hroot (String.isEmpty_iff.mp h)
  simp [pathIn, hname, hempty, hslash]

/-- **There is a folder for all texts**, under every name that is no path from the top. -/
theorem holdsAt_filesOf {root : String} (hroot : root ≠ "")
    (hslash : root.toList.getLast? ≠ some '/') (textOf : String → Option String) {name : String}
    (hname : name.toList.head? ≠ some '/') : HoldsAt root (filesOf root textOf) textOf name := by
  have hrest : (root ++ "/").toList.isPrefixOf? (pathIn root name).toList = some name.toList := by
    rw [List.isPrefixOf?_eq_some_iff_append_eq, pathIn_eq hroot hslash hname,
      ← String.toList_append]
  rw [HoldsAt, filesOf, hrest, Option.bind_some, String.ofList_toList]

variable {root : String} {fileAt : String → Except FileFault ByteArray}
  {textOf : String → Option String} {name : String}

theorem HoldsAt.of_some {text : String} (h : HoldsAt root fileAt textOf name)
    (htext : textOf name = some text) : fileAt (pathIn root name) = .ok text.toUTF8 := by
  rw [h, htext]

theorem HoldsAt.of_none (h : HoldsAt root fileAt textOf name) (htext : textOf name = none) :
    fileAt (pathIn root name) = .error .absent := by
  rw [h, htext]

/-- **The lines of a file** are those of its text. -/
theorem lines_folder (h : HoldsAt root fileAt textOf name) :
    ((folder root fileAt).lines name).outcome =
      ((memory textOf).lines name).outcome.mapError (Error.inFolder root) := by
  cases htext : textOf name with
  | none =>
    simp only [folder, memory, h.of_none htext, htext]
    rfl
  | some text =>
    rw [outcome_lines_folder (h.of_some htext) (Utf8.text?_toUTF8 text),
      outcome_lines_memory htext]
    rfl

/-- **The rows of a file** are those of its text. -/
theorem rows_folder (h : HoldsAt root fileAt textOf name) :
    ((folder root fileAt).rows name).outcome =
      ((memory textOf).rows name).outcome.mapError (Error.inFolder root) := by
  cases htext : textOf name with
  | none =>
    simp only [folder, memory, h.of_none htext, htext]
    rfl
  | some text =>
    simp only [folder, memory, h.of_some htext, htext, Csv.ofBytes_toUTF8]
    rfl

end Source

/-! ## Content -/

section Decoding

variable [Name.Spelling] {root : String} {fileAt : String → Except FileFault ByteArray}
  {textOf : String → Option String}

/-- **The content of a folder** is that of its texts. -/
theorem Content.decode_folder
    (h : ∀ resource : Resource, resource ≠ .counts →
      Source.HoldsAt root fileAt textOf resource.name) :
    (Content.decode (.folder root fileAt)).outcome =
      (Content.decode (.memory textOf)).outcome.mapError (Error.inFolder root) := by
  have hwalk : ∀ (lines : List String) (rows : Kind → List Csv.Row),
      ((placedRows rows).mapM (PlacedRow.card (.ofList lines))).mapError (Error.inFolder root) =
        (placedRows rows).mapM (PlacedRow.card (.ofList lines)) := by
    intro lines rows
    refine mapError_eq_self fun e he => ?_
    obtain ⟨front, row, back, -, -, hrow⟩ := mapM_eq_error_iff.mp he
    exact Error.inFolder_of_ofRow hrow root
  rw [Content.outcome_decode, Content.outcome_decode,
    Source.lines_folder (h .effects Resource.noConfusion),
    Source.rows_folder (h (.cards .acquirable) Resource.noConfusion),
    Source.rows_folder (h (.cards .defeatable) Resource.noConfusion)]
  simp only [← bind_mapError, hwalk]
  rfl

/-- **The deck of a folder** is that of its texts. -/
theorem Deck.read_folder (h : Source.HoldsAt root fileAt textOf Resource.counts.name) :
    (Deck.read (.folder root fileAt)).outcome =
      (Deck.read (.memory textOf)).outcome.mapError (Error.inFolder root) := by
  have hlines : ∀ lines, (Deck.ofLines lines).mapError (Error.inFolder root) = Deck.ofLines lines :=
    fun lines => mapError_eq_self fun e he => Error.inFolder_of_ofLines he root
  rw [Deck.outcome_read, Deck.outcome_read, Source.lines_folder h, ← bind_mapError]
  simp only [hlines]

/-- **A folder of texts is as good as the texts.** Under every name under which the folder has what
memory has, both give the same lines and the same rows, none of which fail; what has no text is
missing from both, the folder telling the path. So both have the same content if this is so of the
resources of the content, and the same deck if it is so of the deck list, or they fail alike. -/
theorem folder_like_memory (root : String) (fileAt : String → Except FileFault ByteArray)
    (textOf : String → Option String) :
    (∀ name, Source.HoldsAt root fileAt textOf name →
      (∀ text, textOf name = some text →
        ((Source.folder root fileAt).lines name).outcome = .ok (Text.lines text) ∧
          ((Source.memory textOf).lines name).outcome = .ok (Text.lines text) ∧
          ((Source.folder root fileAt).rows name).outcome = .ok (Csv.ofText text) ∧
          ((Source.memory textOf).rows name).outcome = .ok (Csv.ofText text)) ∧
      (textOf name = none →
        ((Source.folder root fileAt).lines name).outcome = .error (.missing (pathIn root name)) ∧
          ((Source.memory textOf).lines name).outcome = .error (.missing name) ∧
          ((Source.folder root fileAt).rows name).outcome =
            .error (.missing (pathIn root name)) ∧
          ((Source.memory textOf).rows name).outcome = .error (.missing name))) ∧
    ((∀ resource : Resource, resource ≠ .counts →
        Source.HoldsAt root fileAt textOf resource.name) →
      (Content.decode (.folder root fileAt)).outcome =
        (Content.decode (.memory textOf)).outcome.mapError (Error.inFolder root)) ∧
    (Source.HoldsAt root fileAt textOf Resource.counts.name →
      (Deck.read (.folder root fileAt)).outcome =
        (Deck.read (.memory textOf)).outcome.mapError (Error.inFolder root)) := by
  refine ⟨fun name h => ⟨fun text htext => ?_, fun htext => ?_⟩, Content.decode_folder,
    Deck.read_folder⟩
  · have hlines := Source.outcome_lines_memory htext
    have hrows := Source.outcome_rows_memory htext
    rw [Source.lines_folder h, Source.rows_folder h, hlines, hrows]
    exact ⟨rfl, rfl, rfl, rfl⟩
  · have hlines : ((Source.memory textOf).lines name).outcome = .error (.missing name) := by
      simp only [Source.memory, htext]
      rfl
    have hrows : ((Source.memory textOf).rows name).outcome = .error (.missing name) := by
      simp only [Source.memory, htext]
      rfl
    rw [Source.lines_folder h, Source.rows_folder h, hlines, hrows]
    exact ⟨rfl, rfl, rfl, rfl⟩

end Decoding

section Example

open scoped Name.Table

/-- Texts with a byte order mark, quotes, white space beyond ASCII and no deck. -/
def markedTexts : String → Option String
  | "effects.txt" => some "Gain 1 rune.\n"
  | "acquirable.csv" => some "\uFEFF\"Séer, 日\",\u00A02\t,1,Hero,1()\n"
  | "defeatable.csv" => some ""
  | _ => none

theorem folder_like_memory_marked :
    (∀ resource : Resource,
      Source.HoldsAt "cards" (Source.filesOf "cards" markedTexts) markedTexts resource.name) ∧
      (Content.decode (.folder "cards" (Source.filesOf "cards" markedTexts))).outcome =
        .ok ⟨.ofList ["Gain 1 rune."], .ofCards [⟨"Séer, 日", ⟨"2"⟩, "Hero", .acquirable 1,
          .simple ⟨1, "Gain 1 rune.", none, false⟩⟩]⟩ ∧
      (Deck.read (.folder "cards" (Source.filesOf "cards" markedTexts))).outcome =
        .error (.missing "cards/counts.txt") := by
  have hholds : ∀ resource : Resource,
      Source.HoldsAt "cards" (Source.filesOf "cards" markedTexts) markedTexts resource.name :=
    fun resource => Source.holdsAt_filesOf (by decide) (by decide) markedTexts
      (by rcases resource with _ | (_ | _) | _ <;> decide)
  obtain ⟨-, hdecode, hdeck⟩ :=
    folder_like_memory "cards" (Source.filesOf "cards" markedTexts) markedTexts
  have hmemory : (Content.decode (.memory markedTexts)).outcome =
      .ok ⟨.ofList ["Gain 1 rune."], .ofCards [⟨"Séer, 日", ⟨"2"⟩, "Hero", .acquirable 1,
        .simple ⟨1, "Gain 1 rune.", none, false⟩⟩]⟩ := by cbv
  refine ⟨hholds, ?_, ?_⟩
  · rw [hdecode fun resource _ => hholds resource, hmemory]
    rfl
  · rw [hdeck (hholds .counts)]
    rfl

end Example

end CardContent
