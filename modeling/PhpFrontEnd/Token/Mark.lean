/-!
# Operators and punctuation

Each mark has one or more spellings. The table lists longer spellings before the shorter ones they
begin with, so that the first spelling that fits the text is the longest one. Two marks have no
spelling in the table, because code looks for them before it looks for an operator: the namespace
separator and the opening of an attribute.
-/

namespace PhpFrontEnd

/-- An operator or a punctuation mark. -/
inductive Mark where
  | spaceship | powerAssign | ellipsis | shiftLeftAssign | shiftRightAssign | identical
  | notIdentical | coalesceAssign | nullsafeArrow | arrow | fatArrow | doubleColon | increment
  | decrement | power | addAssign | subtractAssign | multiplyAssign | divideAssign | concatAssign
  | moduloAssign | andAssign | orAssign | xorAssign | coalesce | and | or | equal | notEqual
  | atMost | atLeast | shiftLeft | shiftRight | semicolon | comma | dot | leftParen | rightParen
  | leftBracket | rightBracket | leftBrace | rightBrace | plus | minus | star | slash | percent
  | caret | ampersand | pipe | tilde | bang | assign | less | greater | question | colon | at
  | dollar | namespaceSeparator | attributeOpen
  deriving DecidableEq, Inhabited

namespace Mark

/-- The spellings of operators, longest first. -/
def spellings : List (String × Mark) :=
  [("<=>", .spaceship), ("**=", .powerAssign), ("...", .ellipsis), ("<<=", .shiftLeftAssign),
   (">>=", .shiftRightAssign), ("===", .identical), ("!==", .notIdentical),
   ("??=", .coalesceAssign), ("?->", .nullsafeArrow), ("->", .arrow), ("=>", .fatArrow),
   ("::", .doubleColon), ("++", .increment), ("--", .decrement), ("**", .power),
   ("+=", .addAssign), ("-=", .subtractAssign), ("*=", .multiplyAssign), ("/=", .divideAssign),
   (".=", .concatAssign), ("%=", .moduloAssign), ("&=", .andAssign), ("|=", .orAssign),
   ("^=", .xorAssign), ("??", .coalesce), ("&&", .and), ("||", .or), ("==", .equal),
   ("!=", .notEqual), ("<>", .notEqual), ("<=", .atMost), (">=", .atLeast), ("<<", .shiftLeft),
   (">>", .shiftRight), (";", .semicolon), (",", .comma), (".", .dot), ("(", .leftParen),
   (")", .rightParen), ("[", .leftBracket), ("]", .rightBracket), ("\x7b", .leftBrace),
   ("\x7d", .rightBrace), ("+", .plus), ("-", .minus), ("*", .star), ("/", .slash),
   ("%", .percent), ("^", .caret), ("&", .ampersand), ("|", .pipe), ("~", .tilde), ("!", .bang),
   ("=", .assign), ("<", .less), (">", .greater), ("?", .question), (":", .colon), ("@", .at),
   ("$", .dollar)]

/-- The operator at the front of a text: the first spelling that fits, as its length and mark. -/
def at? (text : List Char) : Option (Nat × Mark) :=
  spellings.findSome? fun (spelling, mark) =>
    if spelling.toList.isPrefixOf text then some (spelling.length, mark) else none

/-- The name of a mark in listings. -/
def name : Mark → String
  | .spaceship => "Spaceship" | .powerAssign => "PowEqual" | .ellipsis => "Ellipsis"
  | .shiftLeftAssign => "SlEqual" | .shiftRightAssign => "SrEqual" | .identical => "IsIdentical"
  | .notIdentical => "IsNotIdentical" | .coalesceAssign => "CoalesceEqual"
  | .nullsafeArrow => "NullsafeObjectOperator" | .arrow => "ObjectOperator"
  | .fatArrow => "DoubleArrow" | .doubleColon => "DoubleColon" | .increment => "Inc"
  | .decrement => "Dec" | .power => "Pow" | .addAssign => "PlusEqual"
  | .subtractAssign => "MinusEqual" | .multiplyAssign => "MulEqual" | .divideAssign => "DivEqual"
  | .concatAssign => "ConcatEqual" | .moduloAssign => "ModEqual" | .andAssign => "AndEqual"
  | .orAssign => "OrEqual" | .xorAssign => "XorEqual" | .coalesce => "Coalesce"
  | .and => "BooleanAnd" | .or => "BooleanOr" | .equal => "IsEqual" | .notEqual => "IsNotEqual"
  | .atMost => "IsSmallerOrEqual" | .atLeast => "IsGreaterOrEqual" | .shiftLeft => "Sl"
  | .shiftRight => "Sr" | .semicolon => "Semicolon" | .comma => "Comma" | .dot => "Dot"
  | .leftParen => "LParen" | .rightParen => "RParen" | .leftBracket => "LBracket"
  | .rightBracket => "RBracket" | .leftBrace => "LBrace" | .rightBrace => "RBrace"
  | .plus => "Plus" | .minus => "Minus" | .star => "Star" | .slash => "Slash"
  | .percent => "Percent" | .caret => "Caret" | .ampersand => "Amp" | .pipe => "Pipe"
  | .tilde => "Tilde" | .bang => "Bang" | .assign => "Eq" | .less => "Lt" | .greater => "Gt"
  | .question => "Question" | .colon => "Colon" | .at => "At" | .dollar => "Dollar"
  | .namespaceSeparator => "NsSeparator" | .attributeOpen => "Attribute"

end Mark

end PhpFrontEnd
