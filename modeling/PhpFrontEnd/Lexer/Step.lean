import PhpFrontEnd.Diagnostic
import PhpFrontEnd.Lexer.Context
import PhpFrontEnd.Literal.Escape
import PhpFrontEnd.Token.Basic

/-!
# One step of a lexer

A step looks at the text in front of the lexer and says how many characters it takes, which token
they make, and what the lexer remembers from then on. A step may make no token: it leaves a mode
in which the next character means nothing, or passes over the blanks before a closing label.

The modes change only by the three changes that a step records (`Step.change`), so a step also says
how it came to the modes after it.

Steps know nothing of positions. Whoever takes a step places the token, and the problems found
with it, at the characters it took.
-/

namespace PhpFrontEnd

/-- How a source is to be read. -/
structure Settings where
  encoding : Encoding := .utf8
  /-- whether `<?` opens code by itself -/
  shortTags : Bool := false
  /-- whether escapes may name code points -/
  codePoints : Bool := false
  deriving DecidableEq

/-- What a lexer does with the text in front of it. -/
structure Step where
  /-- how many characters are taken -/
  length : Nat
  /-- the token that they make -/
  token : Option (TokenKind × TokenValue)
  /-- what is remembered afterwards -/
  context : Context
  /-- the changes of modes that lead there, in the order they are made -/
  changes : List ModeChange := []
  /-- problems with these characters, in the order they were found -/
  errors : List LexError := []
  /-- texts that are kept once for all tokens, in the order they were met -/
  shared : List String := []

namespace Step

/-- Takes characters that make a token without a value. -/
def emit (context : Context) (kind : TokenKind) (length : Nat) : Step :=
  { length, token := some (kind, .none), context }

/-- Takes characters that make a token whose value is their own text. -/
def emitText (context : Context) (kind : TokenKind) (text : List Char) : Step :=
  { length := text.length, token := some (kind, .text (.ofChars text)), context }

/-- Takes characters that make a token whose value is a text that is shared. -/
def emitShared (context : Context) (kind : TokenKind) (length : Nat) (text : List Char) : Step :=
  { length
    token := some (kind, .text (.ofChars text))
    context
    shared := [String.ofList text] }

/-- Takes no characters and makes no token. -/
def silent (context : Context) : Step := { length := 0, token := none, context }

/-- Changes the modes after a step, and keeps a record of it. -/
def change (step : Step) (change : ModeChange) : Step :=
  { step with
    context := step.context.change change
    changes := step.changes ++ [change] }

/-- A change of modes takes no characters. -/
@[simp] theorem length_change (step : Step) (change : ModeChange) :
    (step.change change).length = step.length := rfl

/-- Enters a mode inside the present one. -/
abbrev push (step : Step) (mode : Mode) : Step := step.change (.push mode)

/-- Returns to the enclosing mode. -/
abbrev pop (step : Step) : Step := step.change .pop

/-- Goes on in another mode in place of the present one. -/
abbrev enter (step : Step) (mode : Mode) : Step := step.change (.enter mode)

/-- Forgets the pending documentation comment. -/
def dropDoc (step : Step) : Step := { step with context := step.context.dropDoc }

/-- Adds problems to a step, after its own. -/
def report (step : Step) (errors : List LexError) : Step :=
  { step with errors := step.errors ++ errors }

/-- A step makes one token at most. -/
theorem token_inj {step : Step} {kind kind' : TokenKind} {value value' : TokenValue}
    (h : step.token = some (kind, value)) (h' : step.token = some (kind', value')) :
    kind = kind' ∧ value = value' :=
  Prod.mk.inj (Option.some.inj (h.symm.trans h'))

end Step

/-! ## Decoded bodies -/

/-- The escape rules of a body in a source. -/
def Settings.escapeRules (settings : Settings) (mode : EscapeMode) (binary : Bool) : EscapeRules :=
  { mode, encoding := settings.encoding, codePoints := settings.codePoints, binary }

/-- The value of a body. -/
structure Decoded where
  text : Text
  /-- whether an escape names no character -/
  invalidCodePoint : Bool
  /-- the body itself, if it is its own value -/
  shared : List String

/-- Decodes a body. One without escapes is its own value, and that text is shared. -/
def decodeBody (rules : EscapeRules) (body : List Char) : Decoded :=
  match unescape rules body with
  | .verbatim => ⟨.ofChars body, false, [String.ofList body]⟩
  | .rebuilt text invalid => ⟨text, invalid, []⟩

/-- The problem with a body that was decoded, told by the source text it belongs to. -/
def Decoded.errors (decoded : Decoded) (source : List Char) : List LexError :=
  if decoded.invalidCodePoint then [.invalidCodePoint (String.ofList source)] else []

/-- Takes characters that make a run of text between interpolations. -/
def Step.emitRun (context : Context) (source : List Char) (decoded : Decoded) : Step :=
  { length := source.length
    token := some (.textRun, .run decoded.text (String.ofList source))
    context
    errors := decoded.errors source
    shared := decoded.shared }

/-- Takes characters that make a complete literal. -/
def Step.emitLiteral (context : Context) (quote : Quote) (source : List Char)
    (decoded : Decoded) : Step :=
  { length := source.length
    token := some (.quotedLiteral, .literal decoded.text quote)
    context
    errors := decoded.errors source
    shared := decoded.shared }

end PhpFrontEnd
