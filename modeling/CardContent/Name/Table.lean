import CardContent.Name.Key

/-!
# A table of spellings

A spelling to run with. Stretches of consecutive characters stand in a `Block`; some others stand
one by one in `scattered`. The table is partial: it has the alphabets of Europe, punctuation and a
few characters more, and any character outside it is written `[?]`, whether it has a spelling or
not. Spellings of words (`heart`) and of syllables of Han characters end in a space, which keeps the
next word apart.

No result about names rests on the table. Where names have to be looked up in earnest, `open scoped
CardContent.Name.Table` puts it in force.
-/

set_option autoImplicit false

namespace CardContent.Name

/-- Spellings of consecutive characters, the first of them at code point `start`. -/
structure Block where
  start : Nat
  spellings : List String

/-- The spelling of a character outside the table. -/
def unknownSpelling : String := "[?]"

/-- The C0 controls, white space among them, which have no written form. -/
def lowControls : Block where
  start := 0
  spellings := List.replicate 32 ""

/-- Delete and the C1 controls, which have no written form either. -/
def highControls : Block where
  start := 0x7F
  spellings := List.replicate 33 ""

/-- Latin-1 Supplement. -/
def latinSupplement : Block where
  start := 0xA0
  spellings :=
    [" ", "!", "C/", "PS", "$?", "Y=", "|", "SS", "\"", "(c)", "a", "<<", "!", "", "(r)", "-",
    "deg", "+-", "2", "3", "'", "u", "P", "*", ",", "1", "o", ">>", "1/4", "1/2", "3/4", "?", "A",
    "A", "A", "A", "A", "A", "AE", "C", "E", "E", "E", "E", "I", "I", "I", "I", "D", "N", "O", "O",
    "O", "O", "O", "x", "O", "U", "U", "U", "U", "Y", "Th", "ss", "a", "a", "a", "a", "a", "a",
    "ae", "c", "e", "e", "e", "e", "i", "i", "i", "i", "d", "n", "o", "o", "o", "o", "o", "/", "o",
    "u", "u", "u", "u", "y", "th", "y"]

/-- Latin Extended-A. -/
def latinExtended : Block where
  start := 0x100
  spellings :=
    ["A", "a", "A", "a", "A", "a", "C", "c", "C", "c", "C", "c", "C", "c", "D", "d", "D", "d", "E",
    "e", "E", "e", "E", "e", "E", "e", "E", "e", "G", "g", "G", "g", "G", "g", "G", "g", "H", "h",
    "H", "h", "I", "i", "I", "i", "I", "i", "I", "i", "I", "i", "IJ", "ij", "J", "j", "K", "k", "k",
    "L", "l", "L", "l", "L", "l", "L", "l", "L", "l", "N", "n", "N", "n", "N", "n", "'n", "ng",
    "NG", "O", "o", "O", "o", "O", "o", "OE", "oe", "R", "r", "R", "r", "R", "r", "S", "s", "S",
    "s", "S", "s", "S", "s", "T", "t", "T", "t", "T", "t", "U", "u", "U", "u", "U", "u", "U", "u",
    "U", "u", "U", "u", "W", "w", "Y", "y", "Y", "Z", "z", "Z", "z", "Z", "z", "s"]

/-- Greek letters. -/
def greek : Block where
  start := 0x386
  spellings :=
    ["A", ";", "E", "E", "I", unknownSpelling, "O", unknownSpelling, "U", "O", "I", "A", "B", "G",
    "D", "E", "Z", "E", "Th", "I", "K", "L", "M", "N", "Ks", "O", "P", "R", unknownSpelling, "S",
    "T", "U", "Ph", "Kh", "Ps", "O", "I", "U", "a", "e", "e", "i", "u", "a", "b", "g", "d", "e",
    "z", "e", "th", "i", "k", "l", "m", "n", "x", "o", "p", "r", "s", "s", "t", "u", "ph", "kh",
    "ps", "o", "i", "u", "o", "u", "o"]

/-- Cyrillic letters. -/
def cyrillic : Block where
  start := 0x400
  spellings :=
    ["Ie", "Io", "Dj", "Gj", "E", "Dz", "I", "Yi", "J", "Lj", "Nj", "Tsh", "Kj", "I", "U", "Dzh",
    "A", "B", "V", "G", "D", "E", "Zh", "Z", "I", "I", "K", "L", "M", "N", "O", "P", "R", "S", "T",
    "U", "F", "Kh", "Ts", "Ch", "Sh", "Shch", "'", "Y", "'", "E", "Iu", "Ia", "a", "b", "v", "g",
    "d", "e", "zh", "z", "i", "i", "k", "l", "m", "n", "o", "p", "r", "s", "t", "u", "f", "kh",
    "ts", "ch", "sh", "shch", "'", "y", "'", "e", "iu", "ia", "ie", "io", "dj", "gj", "ie", "dz",
    "i", "yi", "j", "lj", "nj", "tsh", "kj", "i", "u", "dzh"]

/-- General Punctuation. -/
def punctuation : Block where
  start := 0x2000
  spellings :=
    [" ", " ", " ", " ", " ", " ", " ", " ", " ", " ", " ", " ", "", "", "", "", "-", "-", "-", "-",
    "--", "--", "||", "_", "'", "'", ",", "'", "\"", "\"", ",,", "\"", "+", "++", "*", "*>", ".",
    "..", "...", ".", "\n", "\n\n", "", "", "", "", "", " ", "%0", "%00", "'", "''", "'''", "`",
    "``", "```", "^", "<", ">", "*", "!!", "!?", "-", "_", "-", "^", "***", "--", "/", "-[", "]-",
    "??", "?!", "!?", "7", "PP", "(]", "[)", "*", ";", "_", "**", "./.", "~", "_", "*", "_", "''''",
    "_", "*", ":", "_", "+", "_", "_", " ", ""]

/-- Fullwidth forms of the printable ASCII characters, which stand for those characters. -/
def fullwidth : Block where
  start := 0xFF01
  spellings := (List.range 94).map fun k => String.singleton (Char.ofNat (0x21 + k))

/-- The stretches of consecutive characters. -/
def blocks : List Block :=
  [lowControls, highControls, latinSupplement, latinExtended, greek, cyrillic, punctuation,
    fullwidth]

/-- Some characters outside the blocks, by code point. Most of those that have a spelling are
missing. -/
def scattered : List (Nat × String) :=
  [(0x1C5, "Dz"), (0x301, ""), (0x307, ""), (0x5D0, "'"), (0x627, ""), (0x628, "b"), (0x629, "@"),
  (0x631, "r"), (0x639, "`"), (0x644, "l"), (0x64A, "y"), (0x663, "3"), (0x665, "5"), (0x926, "d"),
  (0x928, "n"), (0x939, "h"), (0x93F, "i"), (0x940, "ii"), (0x94D, ""), (0xE17, "th"), (0xE22, "y"),
  (0xE44, "ai"), (0x1680, " "), (0x180E, " "), (0x1E9E, "Ss"), (0x20AC, "EUR"), (0x2116, "No"),
  (0x2122, "tm"), (0x2212, "-"), (0x2460, "1"), (0x2461, "2"), (0x2603, "snowman "),
  (0x2764, "heart"), (0x3000, " "), (0x304C, "ga"), (0x306A, "na"), (0x3072, "hi"), (0x3089, "ra"),
  (0x30AB, "ka"), (0x30BF, "ta"), (0x30CA, "na"), (0x4E2D, "Zhong "), (0x4EAC, "Jing "),
  (0x5317, "Bei "), (0x56FD, "Guo "), (0x602A, "Guai "), (0x65E5, "Ri "), (0x672C, "Ben "),
  (0x7269, "Wu "), (0x8A9E, "Yu "), (0xAD6D, "gug"), (0xD55C, "han"), (0xFB01, "fi"), (0xFEFF, ""),
  (0xFFFD, "?"), (0x1D400, "A"), (0x1D41B, "b"), (0x1F0A1, "As"), (0x1F0A2, "2s"), (0x1F1E9, "D"),
  (0x1F1EA, "E"), (0x1F3B4, "flower playing cards "), (0x1F409, "dragon "), (0x1F467, "girl "),
  (0x1F468, "man "), (0x1F469, "woman ")]

/-- The spelling of code point `n` in a block. -/
def Block.find? (block : Block) (n : Nat) : Option String :=
  if block.start ≤ n then block.spellings[n - block.start]? else none

/-- The spelling of a character by the table. Printable ASCII spells itself. -/
def spell (c : Char) : List Char :=
  if isPlain c && 0x20 ≤ c.toNat then [c]
  else
    match blocks.findSome? fun block => block.find? c.toNat with
    | some spelling => spelling.toList
    | none => ((scattered.lookup c.toNat).getD unknownSpelling).toList

theorem plain_of_mem_blocks : ∀ block ∈ blocks, ∀ spelling ∈ block.spellings,
    ∀ x ∈ spelling.toList, isPlain x = true := by
  have hall : (blocks.all fun block =>
      block.spellings.all fun spelling => spelling.toList.all isPlain) = true := by
    decide +kernel
  intro block hblock spelling hspelling
  have hblocks := List.all_eq_true.mp hall block hblock
  exact List.all_eq_true.mp (List.all_eq_true.mp hblocks spelling hspelling)

theorem plain_of_mem_scattered : ∀ entry ∈ scattered, ∀ x ∈ entry.2.toList, isPlain x = true := by
  have hall : (scattered.all fun entry => entry.2.toList.all isPlain) = true := by
    decide +kernel
  exact fun entry hentry => List.all_eq_true.mp (List.all_eq_true.mp hall entry hentry)

theorem Block.mem_of_find? {block : Block} {n : Nat} {spelling : String}
    (h : block.find? n = some spelling) : spelling ∈ block.spellings := by
  unfold Block.find? at h
  split at h
  · exact List.mem_of_getElem? h
  · cases h

theorem plain_spell (c : Char) : ∀ x ∈ spell c, isPlain x = true := by
  unfold spell
  split
  · rename_i h
    intro x hx
    rw [List.mem_singleton.mp hx]
    exact (Bool.and_eq_true_iff.mp h).1
  · split
    · rename_i spelling h
      obtain ⟨block, hblock, hfind⟩ := List.exists_of_findSome?_eq_some h
      exact plain_of_mem_blocks block hblock spelling (Block.mem_of_find? hfind)
    · cases h : scattered.lookup c.toNat with
      | none => exact List.all_eq_true.mp rfl
      | some spelling =>
        obtain ⟨front, back, hentries, -⟩ := List.lookup_eq_some_iff.mp h
        have hmem : (c.toNat, spelling) ∈ scattered :=
          hentries ▸ List.mem_append_right front List.mem_cons_self
        exact plain_of_mem_scattered _ hmem

/-- The spelling of the table. -/
@[reducible]
def Spelling.standard : Spelling := ⟨spell, plain_spell⟩

namespace Table

/-- The table is in force where its namespace is open. -/
scoped instance : Spelling := Spelling.standard

end Table

end CardContent.Name
