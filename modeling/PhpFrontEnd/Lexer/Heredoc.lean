import PhpFrontEnd.Heredoc.ClosingLabel
import PhpFrontEnd.Heredoc.Indentation
import PhpFrontEnd.Lexer.Interpolation
import PhpFrontEnd.Lexer.Step

/-!
# Heredocs and nowdocs

Three angle brackets, a label and a line end open a heredoc; with the label in single quotes it is
a nowdoc, whose body is neither decoded nor interpolated. The body lasts up to the line with the
closing label. Its fragments lose the indentation of that line, which for all but the last one has
to be looked up ahead.

The closing label is read in a mode of its own, because the blanks before it belong to no token.
-/

namespace PhpFrontEnd.HeredocBody

/-! ## Opening -/

/-- The opening of a heredoc. -/
structure Opening where
  label : List Char
  /-- whether the label is in single quotes -/
  isNowdoc : Bool
  /-- the length of the opening with its line end -/
  length : Nat

/-- The opening of a heredoc, after its three angle brackets. -/
def Opening.after? (text : List Char) : Option Opening :=
  let blanks := (text.takeWhile isIndent).length
  let rest := text.drop blanks
  let quote := (rest.head?.filter fun c => c == '\x27' || c == '"').toList
  let rest := rest.drop quote.length
  let label := rest.takeWhile isLabelPart
  let rest := rest.drop label.length
  if nextIs isLabelStart label && quote.isPrefixOf rest then
    (lineEndLength? (rest.drop quote.length)).map fun lineEnd =>
      { label
        isNowdoc := quote == ['\x27']
        length := blanks + 2 * quote.length + label.length + lineEnd }
  else none

/-- A step at three angle brackets, which `before` characters of the text come before; `none` if
they open no heredoc. -/
def openingStep? (context : Context) (text : List Char) (before : Nat) : Option Step :=
  (Opening.after? (text.drop (before + 3))).map fun opening =>
    let mode := if opening.isNowdoc then .nowdoc else .heredoc
    let context := { context with label := some (String.ofList opening.label) }
    (Step.emitShared context .heredocStart (before + 3 + opening.length) opening.label).push mode

/-! ## Fragments -/

/-- Where a fragment of a body ends. -/
inductive FragmentEnd where
  /-- at a closing label, after so much indentation -/
  | label (indent : Nat)
  | interpolation
  | source

/-- The length of a fragment, without the indentation of a closing label, and what ends it. A
backslash takes the character after it along, unless that is a line feed or the NUL character. -/
def fragment (label : List Char) (lineStart : Bool) : List Char → Nat × FragmentEnd
  | [] =>
    match (if lineStart then Heredoc.closingIndent? label [] else none) with
    | some indent => (0, .label indent)
    | none => (0, .source)
  | c :: rest =>
    match (if lineStart then Heredoc.closingIndent? label (c :: rest) else none) with
    | some indent => (0, .label indent)
    | none =>
      if Interpolation.startsAt (c :: rest) then (0, .interpolation)
      else
        match rest with
        | [] => ((fragment label (c == '\n') []).1 + 1, (fragment label (c == '\n') []).2)
        | next :: after =>
          if c = '\\' ∧ next ≠ '\n' ∧ next ≠ '\x00' then
            ((fragment label false after).1 + 2, (fragment label false after).2)
          else
            ((fragment label (c == '\n') (next :: after)).1 + 1,
              (fragment label (c == '\n') (next :: after)).2)

/-- The text of a body decoded by the rules of a heredoc, or kept as it is in a nowdoc. -/
def decodeFragment (settings : Settings) (isNowdoc : Bool) (body : List Char) : Decoded :=
  if isNowdoc then ⟨.ofChars body, false, [String.ofList body]⟩
  else decodeBody (settings.escapeRules .double false) body

/-- Takes the last fragment of a body, up to the closing label. One that holds nothing besides the
label's indentation makes no token. -/
def closeStep (settings : Settings) (context : Context) (isNowdoc lineStart : Bool)
    (source : List Char) : Step :=
  let (width, errors) :=
    match Heredoc.resolve source lineStart with
    | .ok width => (width, [])
    | .error mismatch => (mismatch.shared, [.heredocIndentation])
  let body := Heredoc.dedent (Heredoc.finalBody source) lineStart width
  let step :=
    if body.isEmpty then { Step.silent context with length := source.length, errors }
    else
      let step := Step.emitRun context source (decodeFragment settings isNowdoc body)
      { step with errors := errors ++ step.errors }
  step.enter .closingLabel

/-- Takes a fragment that an interpolation ends; `after` is the text from there on. -/
def fragmentStep (settings : Settings) (context : Context) (label : List Char) (lineStart : Bool)
    (source after : List Char) : Step :=
  let indent :=
    match Heredoc.ClosingLabel.ahead? label after with
    | some found => (after.take found.labelStart).drop found.lineStart
    | none => []
  let errors :=
    if Heredoc.isIndentedBy source lineStart indent then [] else [.heredocIndentation]
  let body := Heredoc.dedent source lineStart indent.length
  let step := Step.emitRun context source (decodeFragment settings false body)
  { step with errors := errors ++ step.errors }

/-- A step in the body of a heredoc. -/
def heredocStep (settings : Settings) (context : Context) (lineStart : Bool)
    (text : List Char) : Step :=
  match context.label with
  | none => (Step.silent context).pop
  | some label =>
    match fragment label.toList lineStart text with
    | (length, .label indent) =>
      closeStep settings context false lineStart (text.take (length + indent))
    | (length, .interpolation) =>
      if length = 0 then Interpolation.step context text
      else
        fragmentStep settings context label.toList lineStart (text.take length) (text.drop length)
    | (_, .source) => .emitRun context text (decodeFragment settings false text)

/-- A step in the body of a nowdoc. -/
def nowdocStep (settings : Settings) (context : Context) (lineStart : Bool)
    (text : List Char) : Step :=
  match context.label with
  | none => (Step.silent context).pop
  | some label =>
    match Heredoc.ClosingLabel.find? label.toList lineStart text with
    | some found => closeStep settings context true lineStart (text.take found.labelStart)
    | none => .emitRun context text (decodeFragment settings true text)

/-! ## Closing -/

/-- A step at a closing label. The label is given up; a text that does not begin with it makes an
empty token. -/
def closingStep (context : Context) (text : List Char) : Step :=
  let blanks := (text.takeWhile isIndent).length
  match context.label with
  | none => (Step.emit context .heredocEnd blanks).pop
  | some label =>
    let length := if label.toList.isPrefixOf (text.drop blanks) then label.length else 0
    let step : Step :=
      { length := blanks + length
        token := some (.heredocEnd, .text (.str label))
        context := { context with label := none } }
    step.pop

/-- What a step at a closing label takes. -/
inductive AtClosing (context : Context) (text : List Char) : Step → Prop where
  | gone (gone : context.label = none) :
    AtClosing context text (Step.emit context .heredocEnd (text.takeWhile isIndent).length).pop
  | label {label : String} {length : Nat} (held : context.label = some label)
    (eq : length = if label.toList.isPrefixOf (text.drop (text.takeWhile isIndent).length)
      then label.length else 0) :
    AtClosing context text (Step.pop
      { length := (text.takeWhile isIndent).length + length
        token := some (.heredocEnd, .text (.str label))
        context := { context with label := none } })

/-- Every step at a closing label takes one of these. -/
theorem atClosing (context : Context) (text : List Char) :
    AtClosing context text (closingStep context text) := by
  unfold closingStep
  dsimp only
  split
  · rename_i gone
    exact .gone gone
  · rename_i held
    exact .label held rfl

end PhpFrontEnd.HeredocBody
