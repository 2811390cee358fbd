import CardContent.Text.Blank

/-!
# Keys of names

Two spellings of a name find the same entry when they have the same key: the name spelled in
ASCII, its words joined by single spaces, in lower case. So case, accents and the number of spaces
do not count.

What is ASCII in front of the first other character stays as it is, controls included. From that
character on each one is spelled, and a control is spelled as nothing: a tab or a line feed keeps
words apart only in front of it, a space everywhere.

How the single characters are spelled is a `Spelling`, of which nothing is asked but that it is in
ASCII. It is a parameter of everything that files or looks up by name.
-/

set_option autoImplicit false

namespace CardContent.Name

/-- Whether a character is ASCII, delete apart. -/
def isPlain (c : Char) : Bool :=
  c.toNat < 0x7F

/-! ## Spellings -/

/-- How each character is spelled in ASCII. -/
class Spelling where
  ofChar : Char → List Char
  plain : ∀ c, ∀ x ∈ ofChar c, isPlain x = true

namespace Spelling

variable (spelling : Spelling)

/-- Whether `s` gives up the space at its end: a spelling that is more than this space does so at
the end of the text and in front of a spelling that begins with a space itself. -/
def losesSpace (s : List Char) (rest : List Char) : Bool :=
  decide (1 < s.length) && s.getLast? == some ' ' &&
    match rest with
    | [] => true
    | next :: _ => (spelling.ofChar next).head? == some ' '

/-- A text spelled in ASCII, character by character. -/
def respell : List Char → List Char
  | [] => []
  | c :: rest =>
    let s := spelling.ofChar c
    (if spelling.losesSpace s rest then s.dropLast else s) ++ respell rest

/-- A text in ASCII: what is ASCII in front stays, the rest is spelled (`deunicode`). -/
def toAscii (text : List Char) : List Char :=
  text.takeWhile isPlain ++ spelling.respell (text.dropWhile isPlain)

/-- The key of a name, over characters. -/
def keyChars (name : List Char) : List Char :=
  ([' '].intercalate (Text.words (spelling.toAscii name))).map Char.toLower

/-- The key of a name. -/
def key (name : String) : String :=
  String.ofList (spelling.keyChars name.toList)

end Spelling

/-- The key under which a name is filed and looked up (`lookup_key`). -/
def key [spelling : Spelling] (name : String) : String :=
  spelling.key name

end CardContent.Name
