import PhpFrontEnd.Span
import PhpFrontEnd.Text.Basic
import PhpFrontEnd.Token.Cast
import PhpFrontEnd.Token.Keyword
import PhpFrontEnd.Token.Mark

/-!
# Tokens

A token says what kind of thing was read, where it stands, and which value it carries. Kinds are
plain tags: numbers are kept as the words they fit in, literals as their decoded text.
-/

namespace PhpFrontEnd

/-- What a token is. -/
inductive TokenKind where
  /-- text outside of code -/
  | inlineHtml
  | openTag
  | openTagWithEcho
  | closeTag
  | whitespace
  | comment
  | docComment
  /-- an integer of 32 bits -/
  | integer
  /-- an integer that needs 64 bits -/
  | wideInteger
  /-- a number with a point or an exponent, or an integer beyond 63 bits -/
  | real
  /-- a complete quoted literal -/
  | quotedLiteral
  /-- text between interpolations -/
  | textRun
  /-- a number between the brackets of an interpolated array element -/
  | offsetNumber
  /-- a plain name -/
  | identifier
  | variable
  /-- a bare variable name after a dollar sign and a brace -/
  | bareVariable
  | doubleQuote
  | singleQuote
  | backquote
  | heredocStart
  | heredocEnd
  /-- a dollar sign and a brace, inside a string -/
  | dollarBrace
  /-- a brace before a dollar sign, inside a string -/
  | interpolationBrace
  | keyword (word : Keyword)
  /-- `yield from`, which counts as one word -/
  | yieldFrom
  | cast (type : CastType)
  | mark (mark : Mark)
  /-- a character that no token begins with -/
  | badCharacter
  /-- the end of the source -/
  | endOfSource
  deriving DecidableEq, Inhabited

namespace TokenKind

/-- Blanks and comments, which carry no meaning. -/
def isTrivia : TokenKind → Bool
  | .whitespace | .comment | .docComment => true
  | _ => false

def isCast : TokenKind → Bool
  | .cast _ => true
  | _ => false

/-- The name of a kind in listings. -/
def name : TokenKind → String
  | .inlineHtml => "InlineHtml"
  | .openTag => "OpenTag"
  | .openTagWithEcho => "OpenTagWithEcho"
  | .closeTag => "CloseTag"
  | .whitespace => "Whitespace"
  | .comment => "Comment"
  | .docComment => "DocComment"
  | .integer => "LNumber"
  | .wideInteger => "L64Number"
  | .real => "DNumber"
  | .quotedLiteral => "ConstantEncapsedString"
  | .textRun => "EncapsedAndWhitespace"
  | .offsetNumber => "NumString"
  | .identifier => "String"
  | .variable => "Variable"
  | .bareVariable => "StringVarname"
  | .doubleQuote => "DoubleQuotes"
  | .singleQuote => "SingleQuotes"
  | .backquote => "Backquote"
  | .heredocStart => "StartHeredoc"
  | .heredocEnd => "EndHeredoc"
  | .dollarBrace => "DollarOpenCurlyBraces"
  | .interpolationBrace => "CurlyOpen"
  | .keyword word => word.name
  | .yieldFrom => "YieldFrom"
  | .cast type => type.name
  | .mark m => m.name
  | .badCharacter => "BadCharacter"
  | .endOfSource => "End"

end TokenKind

/-- Which quotes a literal was written in. -/
inductive Quote where
  | single
  | double
  deriving DecidableEq, Inhabited

/-- The value that a token carries. -/
inductive TokenValue where
  | none
  | integer (value : Int32)
  | wideInteger (value : Int64)
  | real (value : Float)
  | text (text : Text)
  /-- a complete literal -/
  | literal (text : Text) (quote : Quote)
  /-- text between interpolations, with its source text -/
  | run (text : Text) (raw : String)
  deriving Inhabited

namespace TokenValue

/-- The value as an integer, if it is one. -/
def toInt64? : TokenValue → Option Int64
  | .integer n => some n.toInt64
  | .wideInteger n => some n
  | _ => Option.none

/-- The value as a number with a fraction, if it is one. -/
def toFloat? : TokenValue → Option Float
  | .real x => some x
  | _ => Option.none

/-- The text of the value, if it has one. -/
def text? : TokenValue → Option Text
  | .text t | .literal t _ | .run t _ => some t
  | _ => Option.none

end TokenValue

/-- A token of a source text. -/
structure Token where
  kind : TokenKind
  span : Span
  value : TokenValue
  deriving Inhabited

end PhpFrontEnd
