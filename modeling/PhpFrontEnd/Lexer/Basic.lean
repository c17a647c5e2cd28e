import PhpFrontEnd.Lexer.Code
import PhpFrontEnd.Lexer.Markup

/-!
# The lexer

A lexer is the rest of a source and what is needed to read it: the settings, the offset of the
next character, whether a line starts there, and the context. It takes one step after the other;
each step is placed at the characters it takes, so the spans of tokens follow from how far the
lexer has come.

A lexer over the rest of a source can be made at any point. It stands at the start of what it is
given, so it takes that for the start of a line.
-/

namespace PhpFrontEnd

/-- A lexer at some point of a source. -/
structure Lexer where
  settings : Settings
  /-- what is left of the source -/
  rest : List Char
  /-- the offset of the next character -/
  offset : Nat
  /-- whether a line starts here -/
  lineStart : Bool
  context : Context
  deriving DecidableEq

namespace Lexer

/-- A lexer at the start of a source. The source may be the rest of a larger text, from an offset
on, and what comes before is then in the context. -/
def start (settings : Settings) (source : List Char) (offset : Nat := 0) (context : Context := {}) :
    Lexer :=
  { settings, rest := source, offset, lineStart := true, context }

/-- The step that the lexer takes next. At the end of the source that is the end token. -/
def step (lexer : Lexer) : Step :=
  let { settings, rest, offset, lineStart, context } := lexer
  match rest with
  | [] => .emit context .endOfSource 0
  | _ :: _ =>
    match context.mode with
    | .markup => Markup.step settings context rest
    | .code => Code.step settings context offset rest
    | .doubleQuoted => Quoted.interpolatedStep settings context '"' .doubleQuote .double rest
    | .singleQuoted => Quoted.singleQuotedStep settings context rest
    | .backquoted => Quoted.interpolatedStep settings context '\x60' .backquote .backquote rest
    | .heredoc => HeredocBody.heredocStep settings context lineStart rest
    | .nowdoc => HeredocBody.nowdocStep settings context lineStart rest
    | .closingLabel => HeredocBody.closingStep context rest
    | .property => Interpolation.propertyStep context rest
    | .variableName => Interpolation.variableNameStep context rest
    | .offset => Interpolation.offsetStep context rest

/-- At the end of the source a step makes the end token. -/
theorem step_of_rest_eq_nil {lexer : Lexer} (h : lexer.rest = []) :
    lexer.step = .emit lexer.context .endOfSource 0 := by
  obtain ⟨settings, rest, offset, lineStart, context⟩ := lexer
  cases h
  rfl

/-- A step in front of some text, mode by mode. -/
theorem step_eq {lexer : Lexer} (ne : lexer.rest ≠ []) :
    lexer.step =
      match lexer.context.mode with
      | .markup => Markup.step lexer.settings lexer.context lexer.rest
      | .code => Code.step lexer.settings lexer.context lexer.offset lexer.rest
      | .doubleQuoted =>
        Quoted.interpolatedStep lexer.settings lexer.context '"' .doubleQuote .double lexer.rest
      | .singleQuoted => Quoted.singleQuotedStep lexer.settings lexer.context lexer.rest
      | .backquoted =>
        Quoted.interpolatedStep lexer.settings lexer.context '\x60' .backquote .backquote lexer.rest
      | .heredoc =>
        HeredocBody.heredocStep lexer.settings lexer.context lexer.lineStart lexer.rest
      | .nowdoc => HeredocBody.nowdocStep lexer.settings lexer.context lexer.lineStart lexer.rest
      | .closingLabel => HeredocBody.closingStep lexer.context lexer.rest
      | .property => Interpolation.propertyStep lexer.context lexer.rest
      | .variableName => Interpolation.variableNameStep lexer.context lexer.rest
      | .offset => Interpolation.offsetStep lexer.context lexer.rest := by
  obtain ⟨settings, rest, offset, lineStart, context⟩ := lexer
  obtain ⟨c, rest, rfl⟩ := List.exists_cons_of_ne_nil ne
  rfl

/-- The lexer after taking some characters and remembering something else. -/
def take (lexer : Lexer) (length : Nat) (context : Context) : Lexer :=
  { lexer with
    rest := lexer.rest.drop length
    offset := lexer.offset + length
    lineStart :=
      match length with
      | 0 => lexer.lineStart
      | n + 1 => lexer.rest[n]? == some '\n'
    context }

/-- The lexer after its next step. -/
def advance (lexer : Lexer) : Lexer := lexer.take lexer.step.length lexer.step.context

/-- The place of the next step. -/
def span (lexer : Lexer) : Span := ⟨lexer.offset, lexer.step.length⟩

end Lexer

end PhpFrontEnd
