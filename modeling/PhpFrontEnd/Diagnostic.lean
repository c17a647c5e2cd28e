import PhpFrontEnd.Span

/-!
# Diagnostics

What a lexer finds wrong while it goes on. Each problem is a cause; how bad it is and how it is
worded follow from the cause.
-/

namespace PhpFrontEnd

/-- A problem in a source text. -/
inductive LexError where
  /-- a character that no token begins with -/
  | unexpectedCharacter (c : Char)
  /-- a heredoc line that is indented less than the closing label -/
  | heredocIndentation
  /-- a literal with a leading zero and a digit above seven -/
  | invalidNumber (literal : String)
  /-- a comment without an end, and the offset it starts at -/
  | unterminatedComment (start : Nat)
  /-- an integer beyond 63 bits -/
  | integerTooBig (literal : String)
  /-- a number too large for a finite float -/
  | realTooBig (literal : String)
  /-- an escape that names no character -/
  | invalidCodePoint (literal : String)
  deriving DecidableEq

/-- Whether tokens can still be trusted after a problem. -/
inductive Severity where
  | fatal
  | warning
  deriving DecidableEq

/-- The word for a severity in reports. -/
def Severity.label : Severity → String
  | .fatal => "error"
  | .warning => "warning"

namespace LexError

def severity : LexError → Severity
  | .unexpectedCharacter _ | .heredocIndentation | .invalidNumber _ | .unterminatedComment _ =>
    .fatal
  | .integerTooBig _ | .realTooBig _ | .invalidCodePoint _ => .warning

def isFatal (e : LexError) : Bool := e.severity == .fatal

/-- The wording of a problem. -/
def message : LexError → String
  | .unexpectedCharacter c => s!"syntax error, unexpected '{c}'"
  | .heredocIndentation => "incorrect heredoc indentation"
  | .invalidNumber literal => s!"invalid numeric literal '{literal}'"
  | .unterminatedComment start => s!"unterminated comment starting at offset {start}"
  | .integerTooBig literal =>
    s!"integer literal '{literal}' does not fit in 64 bits and was converted to float"
  | .realTooBig literal => s!"float literal '{literal}' overflowed to infinity"
  | .invalidCodePoint literal => s!"invalid unicode code point in escape '{literal}'"

end LexError

/-- A problem and the place it was found at. -/
structure Diagnostic where
  span : Span
  error : LexError
  deriving DecidableEq

end PhpFrontEnd
