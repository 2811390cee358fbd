/-!
# Bytes as UTF-8 text

`text?` reads a whole byte string, and `validLength` says how far reading gets: the length in
bytes of the longest beginning that is a sequence of whole encoded characters.
-/

set_option autoImplicit false

namespace CardContent.Utf8

/-- The text that bytes encode, if they encode one. -/
def text? (bytes : ByteArray) : Option String :=
  String.fromUTF8? bytes

/-- The offset of the first byte, from `start` on, at which no encoded character starts. -/
def validEnd (bytes : ByteArray) (start : Nat) : Nat :=
  if start < bytes.size then
    match bytes.utf8DecodeChar? start with
    | some c => validEnd bytes (start + c.utf8Size)
    | none => start
  else start
termination_by bytes.size - start
decreasing_by
  have := c.utf8Size_pos
  omega

/-- The length of the longest beginning of `bytes` that is valid UTF-8. -/
def validLength (bytes : ByteArray) : Nat :=
  validEnd bytes 0

end CardContent.Utf8
