import PhpFrontEnd.Decimal.Layout
import PhpFrontEnd.Text.Printable
import PhpFrontEnd.Token.Basic

/-!
# Listings of tokens

A listing has one line for each token: its bounds, its kind, and its value if it has one. Texts are
quoted, so that every value stays on its line and can be told from another: characters that cannot
be shown, or that would attach to what stands before them, are written by their code points.
-/

namespace PhpFrontEnd.Listing

/-! ## Values -/

/-- Escapes of one letter. -/
def shortEscapes : List (Char × Char) :=
  [('\x00', '0'), ('\t', 't'), ('\n', 'n'), ('\r', 'r'), ('"', '"'), ('\\', '\\')]

/-- A character inside quotes. -/
def escapeChar (c : Char) : List Char :=
  match shortEscapes.lookup c with
  | some letter => ['\\', letter]
  | none =>
    if Printable.extendsGrapheme c || !Printable.isPrintable c then
      '\\' :: 'u' :: '\x7b' :: Nat.toDigits 16 c.toNat ++ ['\x7d']
    else [c]

/-- A text in quotes. -/
def quote (text : String) : String :=
  String.ofList ('"' :: text.toList.flatMap escapeChar ++ ['"'])

/-- A decoded text in quotes; bytes are marked by a letter, and shown as the text they would be. -/
def quoteText : Text → String
  | .str s => quote s
  | .bytes b => "b" ++ quote (Text.bytes b).toStringLossy

/-- Numbers are written without an exponent from 0.0001 up to below ten to the sixteenth, and a
whole number shows its point. -/
def numberLayout : Decimal.Layout where
  tie := .greater
  positional := some (-4, 15)
  wholeEnd := ".0"
  exponentPlus := ""
  infinity := "inf"
  notANumber := "NaN"

/-- The value of a token, if it has one. -/
def valueText? : TokenValue → Option String
  | .none => none
  | .integer n => some (toString n.toInt)
  | .wideInteger n => some (toString n.toInt)
  | .real x => some (numberLayout.write x)
  | .text t | .literal t _ | .run t _ => some (quoteText t)

/-! ## Lines -/

/-- A text with blanks in front up to a width. -/
def alignRight (width : Nat) (text : String) : String :=
  String.ofList (List.replicate (width - text.length) ' ' ++ text.toList)

/-- A text with blanks behind up to a width. -/
def alignLeft (width : Nat) (text : String) : String :=
  String.ofList (text.toList ++ List.replicate (width - text.length) ' ')

/-- The line of a token. Blanks behind the kind are left out if no value follows. -/
def tokenLine (token : Token) : String :=
  let bounds := alignRight 6 token.span.toString
  match valueText? token.value with
  | none => s!"{bounds} {token.kind.name}"
  | some value => s!"{bounds} {alignLeft 24 token.kind.name} {value}"

end PhpFrontEnd.Listing
