import CardContent.Error
import CardContent.Name.Key
import CardContent.Roster

/-!
# The starting deck

A deck list gives on each line the name of a card and, behind the last colon, how many copies of it
the deck holds. Blank lines and lines that begin with `#` are passed over. A name that occurs again
counts anew: look-up gives the last count, the list keeps all.

Counts have 32 bits, and so has their sum. What becomes of a sum that needs more is not for the deck
to say: an `Overflow` is a parameter of the total.
-/

set_option autoImplicit false

namespace CardContent

/-- A line of a deck list (`CountEntry`). -/
structure DeckEntry where
  name : String
  count : UInt32
  deriving DecidableEq, Repr

/-- A starting deck (`CardCounts`). -/
abbrev Deck := Roster DeckEntry

namespace DeckEntry

/-- The text in front of the last colon and the text behind it (`rsplit_once`). -/
def splitLastColon (line : List Char) : Option (List Char × List Char) :=
  let reversed := line.reverse
  match reversed.dropWhile (· != ':') with
  | [] => none
  | _ :: front => some (front.reverse, (reversed.takeWhile (· != ':')).reverse)

/-- The entry on a trimmed line. -/
def ofChars? (line : List Char) : Option DeckEntry := do
  let (front, behind) ← splitLastColon line
  let count ← Numeral.uint32? (Text.trim behind)
  let name := Text.trim front
  if name.isEmpty then none else return ⟨String.ofList name, count⟩

/-- The entry on a line, if the line has one (the loop body of `CardCounts::parse`). -/
def ofLine (line : String) : Except Error (Option DeckEntry) :=
  let text := Text.trim line.toList
  if text.isEmpty || text.head? == some '#' then .ok none
  else
    match ofChars? text with
    | some entry => .ok (some entry)
    | none => .error (.count (String.ofList text))

end DeckEntry

/-- What becomes of a sum that its type cannot hold. -/
inductive Overflow where
  /-- It is taken modulo the size of the type. -/
  | wraps
  /-- The program stops. -/
  | stops
  deriving DecidableEq, Repr

/-- The sum of two numbers of 32 bits, if the program goes on. -/
def Overflow.add? (overflow : Overflow) (a b : UInt32) : Option UInt32 :=
  if a.toNat + b.toNat < UInt32.size then some (a + b)
  else
    match overflow with
    | .wraps => some (a + b)
    | .stops => none

namespace Deck

/-- The sum of all counts, those of hidden entries included (`CardCounts::total_cards`). -/
def total? (overflow : Overflow) (deck : Deck) : Option UInt32 :=
  deck.toList.foldlM (fun sum entry => overflow.add? sum entry.count) 0

variable [Name.Spelling]

/-- Add an entry. -/
def add (deck : Deck) (entry : DeckEntry) : Deck :=
  deck.insert (Name.key entry.name) entry

/-- The deck with these entries, in this order. -/
def ofEntries (entries : List DeckEntry) : Deck :=
  entries.foldl add Roster.empty

theorem toList_ofEntries (entries : List DeckEntry) : (ofEntries entries).toList = entries :=
  Roster.toList_foldl_insert (fun entry : DeckEntry => Name.key entry.name) Roster.empty entries

/-- The deck of a list, up to the first line that is wrong (`CardCounts::parse`). -/
def ofLines (lines : List String) : Except Error Deck := do
  let entries ← lines.mapM DeckEntry.ofLine
  return ofEntries (entries.filterMap id)

/-- How many copies of a card the deck holds (`CardCounts::get`). -/
def copies (deck : Deck) (name : String) : UInt32 :=
  match deck.find? (Name.key name) with
  | some entry => entry.count
  | none => 0

end Deck

end CardContent
