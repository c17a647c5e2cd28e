import PhpFrontEnd.Lexer.Interpolation
import PhpFrontEnd.Lexer.Step

/-!
# Quoted strings

A string that is closed on both sides, with nothing to interpolate between, is one token: a
literal with its decoded value. Any other string is read in pieces. Its opening quote is a token,
and the lexer enters a mode in which runs of text and interpolations take turns until the closing
quote returns to where the string began.

In both cases a backslash takes the character after it along, so that it closes nothing and
interpolates nothing; at the end of the source there may be none.
-/

namespace PhpFrontEnd.Quoted

/-! ## Complete literals -/

/-- The number of characters up to and with the closing quote, after the opening one; `none` if
the string is not closed, or interpolates something first. -/
def closingLength? (quote : Char) (interpolates : Bool) : List Char → Option Nat
  | [] => none
  | '\\' :: rest =>
    match rest with
    | [] => none
    | _ :: rest => (closingLength? quote interpolates rest).map (· + 2)
  | c :: rest =>
    if c = quote then some 1
    else if interpolates && Interpolation.startsAt (c :: rest) then none
    else (closingLength? quote interpolates rest).map (· + 1)

/-- Takes a complete literal. A letter before the quotes makes its value bytes. -/
def emitLiteral (settings : Settings) (context : Context) (quote : Char) (kind : Quote)
    (mode : EscapeMode) (literal : List Char) : Step :=
  let bounds := QuotedBounds.of quote literal
  let body := (literal.take bounds.stop).drop bounds.start
  .emitLiteral context kind literal (decodeBody (settings.escapeRules mode bounds.binary) body)

/-- A step at an opening single quote, which `before` characters of the text come before. -/
def singleStep (settings : Settings) (context : Context) (text : List Char) (before : Nat) :
    Step :=
  match closingLength? '\x27' false (text.drop (before + 1)) with
  | some length =>
    emitLiteral settings context '\x27' .single .single (text.take (before + 1 + length))
  | none => (Step.emit context .singleQuote (before + 1)).push .singleQuoted

/-- A step at an opening double quote, which `before` characters of the text come before. -/
def doubleStep (settings : Settings) (context : Context) (text : List Char) (before : Nat) :
    Step :=
  match closingLength? '"' true (text.drop (before + 1)) with
  | some length =>
    emitLiteral settings context '"' .double .double (text.take (before + 1 + length))
  | none => (Step.emit context .doubleQuote (before + 1)).push .doubleQuoted

/-! ## Strings read in pieces -/

/-- The number of characters before the closing quote, an interpolation or the end. -/
def runLength (quote : Char) (interpolates : Bool) : List Char → Nat
  | [] => 0
  | '\\' :: rest =>
    match rest with
    | [] => 1
    | _ :: rest => runLength quote interpolates rest + 2
  | c :: rest =>
    if c = quote then 0
    else if interpolates && Interpolation.startsAt (c :: rest) then 0
    else runLength quote interpolates rest + 1

/-- A step inside double quotes or backquotes. -/
def interpolatedStep (settings : Settings) (context : Context) (quote : Char) (kind : TokenKind)
    (mode : EscapeMode) (text : List Char) : Step :=
  if nextIs (· == quote) text then (Step.emit context kind 1).pop
  else if Interpolation.startsAt text then Interpolation.step context text
  else
    let run := text.take (runLength quote true text)
    .emitRun context run (decodeBody (settings.escapeRules mode false) run)

/-- A step inside single quotes. -/
def singleQuotedStep (settings : Settings) (context : Context) (text : List Char) : Step :=
  if nextIs (· == '\x27') text then (Step.emit context .singleQuote 1).pop
  else
    let run := text.take (runLength '\x27' false text)
    .emitRun context run (decodeBody (settings.escapeRules .single false) run)

/-! ## What is in front -/

/-- What a step at an opening quote takes, which `before` characters of the text come before: the
whole literal if it is closed, and else the quote alone. -/
inductive AtQuote (settings : Settings) (context : Context) (text : List Char) (before : Nat) :
    Step → Prop where
  | closed {quote : Char} {kind : Quote} {mode : EscapeMode} {length : Nat} :
    AtQuote settings context text before
      (emitLiteral settings context quote kind mode (text.take (before + 1 + length)))
  | single (unclosed : closingLength? '\x27' false (text.drop (before + 1)) = none) :
    AtQuote settings context text before
      ((Step.emit context .singleQuote (before + 1)).push .singleQuoted)
  | double (unclosed : closingLength? '"' true (text.drop (before + 1)) = none) :
    AtQuote settings context text before
      ((Step.emit context .doubleQuote (before + 1)).push .doubleQuoted)

/-- Every step at a single quote takes one of these. -/
theorem atSingle (settings : Settings) (context : Context) (text : List Char) (before : Nat) :
    AtQuote settings context text before (singleStep settings context text before) := by
  unfold singleStep
  split
  · exact .closed
  · rename_i unclosed
    exact .single unclosed

/-- Every step at a double quote takes one of these. -/
theorem atDouble (settings : Settings) (context : Context) (text : List Char) (before : Nat) :
    AtQuote settings context text before (doubleStep settings context text before) := by
  unfold doubleStep
  split
  · exact .closed
  · rename_i unclosed
    exact .double unclosed

/-- What a step inside quotes takes. Not in all of them there are interpolations. -/
inductive InQuotes (settings : Settings) (context : Context) (quote : Char) (kind : TokenKind)
    (mode : EscapeMode) (interpolates : Bool) (text : List Char) : Step → Prop where
  | closing (front : nextIs (· == quote) text) :
    InQuotes settings context quote kind mode interpolates text ((Step.emit context kind 1).pop)
  | interpolation {step : Step} (interpolates_eq : interpolates = true)
    (starts : Interpolation.startsAt text) (front : Interpolation.AtStart context text step) :
    InQuotes settings context quote kind mode interpolates text step
  | run (noQuote : nextIs (· == quote) text = false)
    (noStart : (interpolates && Interpolation.startsAt text) = false) :
    InQuotes settings context quote kind mode interpolates text
      (.emitRun context (text.take (runLength quote interpolates text))
        (decodeBody (settings.escapeRules mode false)
          (text.take (runLength quote interpolates text))))

/-- Every step inside double quotes or backquotes takes one of these. -/
theorem inInterpolated (settings : Settings) (context : Context) (quote : Char) (kind : TokenKind)
    (mode : EscapeMode) (text : List Char) :
    InQuotes settings context quote kind mode true text
      (interpolatedStep settings context quote kind mode text) := by
  unfold interpolatedStep
  split
  · rename_i front
    exact .closing front
  · rename_i noQuote
    split
    · rename_i starts
      exact .interpolation rfl starts (Interpolation.atStart context text)
    · rename_i noStart
      exact .run (Bool.eq_false_iff.2 noQuote) (Bool.eq_false_iff.2 noStart)

/-- Every step inside single quotes takes one of these. -/
theorem inSingleQuoted (settings : Settings) (context : Context) (text : List Char) :
    InQuotes settings context '\x27' .singleQuote .single false text
      (singleQuotedStep settings context text) := by
  unfold singleQuotedStep
  split
  · rename_i front
    exact .closing front
  · rename_i noQuote
    exact .run (Bool.eq_false_iff.2 noQuote) rfl

end PhpFrontEnd.Quoted
