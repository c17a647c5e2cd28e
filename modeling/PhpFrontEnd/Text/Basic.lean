import PhpFrontEnd.Text.Utf8

/-!
# Decoded text

The value of a literal is text where it can be, and bytes where it has to be: a binary literal,
or one whose escapes spell bytes that the source encoding gives no meaning to.
-/

namespace PhpFrontEnd

/-- The decoded value of a literal. -/
inductive Text where
  /-- characters -/
  | str (value : String)
  /-- bytes that are not text in the source encoding -/
  | bytes (value : List UInt8)
  deriving DecidableEq, Inhabited

namespace Text

/-- Text of a list of characters. -/
def ofChars (chars : List Char) : Text := .str (String.ofList chars)

def isEmpty : Text → Bool
  | .str s => s.isEmpty
  | .bytes b => b.isEmpty

/-- The characters to show for it; bytes are read as UTF-8 and replaced where ill formed. -/
def toStringLossy : Text → String
  | .str s => s
  | .bytes b => String.ofList (Utf8.decodeLossy b)

end Text

end PhpFrontEnd
