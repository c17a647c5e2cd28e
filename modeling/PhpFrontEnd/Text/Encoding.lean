import PhpFrontEnd.Text.Character
import PhpFrontEnd.Text.Utf8

/-!
# Source encodings

A source is stored in UTF-8 or in Latin-1. The encoding says which text some bytes are, and which
bytes a character is written as; Latin-1 has no bytes for characters above U+00FF and writes them
as question marks. The name of an encoding is read without regard to case.
-/

namespace PhpFrontEnd

/-- How a source text is stored. -/
inductive Encoding where
  | utf8
  | latin1
  deriving DecidableEq, Inhabited

/-- A name that no encoding has, in lower case. -/
structure UnknownEncoding where
  name : String

def UnknownEncoding.message (e : UnknownEncoding) : String := s!"unknown encoding '{e.name}'"

namespace Encoding

/-- The encoding of a name. -/
def ofName (name : String) : Except UnknownEncoding Encoding :=
  let lower := lowerCase name
  if lower = "utf8" ∨ lower = "utf-8" then .ok .utf8
  else if lower = "latin1" ∨ lower = "latin-1" ∨ lower = "iso-8859-1" then .ok .latin1
  else .error ⟨lower⟩

/-- The text that some bytes are; what is not well formed is replaced. -/
def decode : Encoding → List UInt8 → List Char
  | .utf8, bytes => Utf8.decodeLossy bytes
  | .latin1, bytes => bytes.map fun b => .ofNat b.toNat

/-- The text that some bytes are, if they are well formed. -/
def decode? : Encoding → List UInt8 → Option (List Char)
  | .utf8, bytes => Utf8.decode? bytes
  | .latin1, bytes => some (Encoding.latin1.decode bytes)

/-- The bytes of a character. -/
def encode : Encoding → Char → List UInt8
  | .utf8, c => Utf8.encode c
  | .latin1, c => [if c.toNat < 0x100 then .ofNat c.toNat else 0x3F]

/-- The bytes of a text. -/
def encodeAll (encoding : Encoding) (text : List Char) : List UInt8 :=
  text.flatMap encoding.encode

end Encoding

end PhpFrontEnd
