import PhpFrontEnd.Lexer.Number
import PhpFrontEnd.Lexer.Step

/-!
# Interpolations

Inside double quotes, backquotes and heredocs a dollar sign begins an interpolation if a label or a
brace follows, and so does a brace before a dollar sign. A plain variable may be followed by one
element in brackets or one property after an arrow; the lexer then reads that much of it in a mode
of its own. Braces enter code.

The three modes that an interpolation leads to hold little: a mode that finds a character it has
no use for is left without taking it.
-/

namespace PhpFrontEnd.Interpolation

/-- Whether an interpolation begins at the front of a text. -/
def startsAt (text : List Char) : Bool :=
  match text with
  | '$' :: rest => nextIs (fun c => isLabelStart c || c == '\x7b') rest
  | '\x7b' :: rest => nextIs (· == '$') rest
  | _ => false

/-- Takes a dollar sign and the label after it. -/
def emitVariable (context : Context) (text : List Char) : Step :=
  let name := (text.drop 1).takeWhile isLabelPart
  .emitShared context .variable (name.length + 1) name

/-- Whether an arrow and a label are at the front of a text. -/
def arrowAt (text : List Char) : Bool :=
  match text with
  | '-' :: '>' :: rest => nextIs isLabelStart rest
  | '?' :: '-' :: '>' :: rest => nextIs isLabelStart rest
  | _ => false

/-- A step at the beginning of an interpolation. -/
def step (context : Context) (text : List Char) : Step :=
  match text with
  | '$' :: '\x7b' :: _ => (Step.emit context .dollarBrace 2).push .variableName
  | '\x7b' :: _ => (Step.emit context .interpolationBrace 1).push .code
  | _ =>
    let after := (text.drop 1).dropWhile isLabelPart
    let step := emitVariable context text
    if nextIs (· == '[') after then step.push .offset
    else if arrowAt after then step.push .property
    else step

/-- A step after an arrow. Blanks and further arrows keep the mode; anything else leaves it, and a
label is taken as the name of a property. -/
def propertyStep (context : Context) (text : List Char) : Step :=
  let blanks := text.takeWhile isBlank
  if !blanks.isEmpty then .emit context .whitespace blanks.length
  else
    match text with
    | '-' :: '>' :: _ => .emit context (.mark .arrow) 2
    | '?' :: '-' :: '>' :: _ => .emit context (.mark .nullsafeArrow) 3
    | _ =>
      let name := text.takeWhile isLabelPart
      let step :=
        if nextIs isLabelStart text then Step.emitShared context .identifier name.length name
        else .silent context
      step.pop

/-- A step after a dollar sign and a brace. What follows is code, except that a bare label before
a bracket or the closing brace is the name of a variable. -/
def variableNameStep (context : Context) (text : List Char) : Step :=
  let name := text.takeWhile isLabelPart
  let step :=
    if nextIs isLabelStart text && nextIs (fun c => c == '[' || c == '\x7d') (text.drop name.length)
    then Step.emitShared context .bareVariable name.length name
    else .silent context
  step.pop.push .code

/-- A step between the brackets after an interpolated variable. -/
def offsetStep (context : Context) (text : List Char) : Step :=
  match text with
  | '[' :: _ => .emit context (.mark .leftBracket) 1
  | ']' :: _ => (Step.emit context (.mark .rightBracket) 1).pop
  | '-' :: _ => .emit context (.mark .minus) 1
  | _ =>
    let name := text.takeWhile isLabelPart
    if nextIs (· == '$') text && nextIs isLabelStart (text.drop 1) then emitVariable context text
    else if nextIs Char.isDigit text then Number.offsetStep context text
    else if nextIs isLabelStart text then .emitShared context .identifier name.length name
    else (Step.silent context).pop

/-! ## What is in front -/

/-- What a step at the beginning of an interpolation takes. A variable leads to a mode of its own if
a bracket is behind it, or an arrow with a label. -/
inductive AtStart (context : Context) (text : List Char) : Step → Prop where
  | dollarBrace (front : ['$', '\x7b'] <+: text) :
    AtStart context text ((Step.emit context .dollarBrace 2).push .variableName)
  | brace (front : ['\x7b'] <+: text) :
    AtStart context text ((Step.emit context .interpolationBrace 1).push .code)
  | element (noBrace : nextIs (· == '\x7b') text = false)
    (bracket : nextIs (· == '[') ((text.drop 1).dropWhile isLabelPart)) :
    AtStart context text ((emitVariable context text).push .offset)
  | property (noBrace : nextIs (· == '\x7b') text = false)
    (arrow : arrowAt ((text.drop 1).dropWhile isLabelPart)) :
    AtStart context text ((emitVariable context text).push .property)
  | plain (noBrace : nextIs (· == '\x7b') text = false) :
    AtStart context text (emitVariable context text)

/-- Every step at the beginning of an interpolation takes one of these. -/
theorem atStart (context : Context) (text : List Char) :
    AtStart context text (step context text) := by
  unfold step
  split
  · rename_i rest
    exact .dollarBrace ⟨rest, rfl⟩
  · rename_i rest
    exact .brace ⟨rest, rfl⟩
  · rename_i other
    have noBrace : nextIs (· == '\x7b') text = false := by
      rcases text with _ | ⟨c, rest⟩
      · rfl
      · exact beq_eq_false_iff_ne.2 fun brace => other rest (by rw [brace])
    dsimp only
    split
    · rename_i bracket
      exact .element noBrace bracket
    · split
      · rename_i arrow
        exact .property noBrace arrow
      · exact .plain noBrace

/-- What a step after an arrow takes. -/
inductive AtProperty (context : Context) (text : List Char) : Step → Prop where
  | blanks (blank : nextIs isBlank text) :
    AtProperty context text (.emit context .whitespace (text.takeWhile isBlank).length)
  | arrow (front : ['-', '>'] <+: text) :
    AtProperty context text (.emit context (.mark .arrow) 2)
  | nullsafeArrow (front : ['?', '-', '>'] <+: text) :
    AtProperty context text (.emit context (.mark .nullsafeArrow) 3)
  | name (begins : nextIs isLabelStart text) :
    AtProperty context text (Step.emitShared context .identifier
      (text.takeWhile isLabelPart).length (text.takeWhile isLabelPart)).pop
  | other (noBlank : nextIs isBlank text = false) (noArrow : ¬arrowAt text)
    (noName : nextIs isLabelStart text = false) : AtProperty context text (Step.silent context).pop

/-- Every step after an arrow takes one of these. -/
theorem atProperty (context : Context) (text : List Char) :
    AtProperty context text (propertyStep context text) := by
  have blank_iff : nextIs isBlank text ↔ (text.takeWhile isBlank).isEmpty = false := by
    rcases text with _ | ⟨c, rest⟩
    · exact iff_of_false Bool.false_ne_true nofun
    · by_cases blank : isBlank c <;> simp [nextIs, blank]
  unfold propertyStep
  dsimp only
  split
  · rename_i some
    exact .blanks (blank_iff.2 (Bool.not_eq_true' _ ▸ some))
  · rename_i none
    have noBlank : nextIs isBlank text = false := by
      rw [← Bool.not_eq_true, blank_iff]
      exact fun some => none (by rw [some]; rfl)
    split
    · rename_i rest
      exact .arrow ⟨rest, rfl⟩
    · rename_i rest
      exact .nullsafeArrow ⟨rest, rfl⟩
    · rename_i noDash noQuestion
      split
      · rename_i begins
        exact .name begins
      · rename_i noName
        refine .other noBlank ?_ (Bool.not_eq_true _ ▸ noName)
        unfold arrowAt
        split
        · exact absurd rfl (noDash _)
        · exact absurd rfl (noQuestion _)
        · exact Bool.false_ne_true

/-- What a step after a dollar sign and a brace takes. In any case code follows. -/
inductive AtVariableName (context : Context) (text : List Char) : Step → Prop where
  | name (begins : nextIs isLabelStart text)
    (ends : nextIs (fun c => c == '[' || c == '\x7d')
      (text.drop (text.takeWhile isLabelPart).length)) :
    AtVariableName context text (((Step.emitShared context .bareVariable
      (text.takeWhile isLabelPart).length (text.takeWhile isLabelPart)).pop).push .code)
  | other : AtVariableName context text ((Step.silent context).pop.push .code)

/-- Every step after a dollar sign and a brace takes one of these. -/
theorem atVariableName (context : Context) (text : List Char) :
    AtVariableName context text (variableNameStep context text) := by
  unfold variableNameStep
  dsimp only
  split
  · rename_i name
    rw [Bool.and_eq_true] at name
    exact .name name.1 name.2
  · exact .other

/-- What a step between brackets takes. -/
inductive AtOffset (context : Context) (text : List Char) : Step → Prop where
  | bracket (front : ['['] <+: text) : AtOffset context text (.emit context (.mark .leftBracket) 1)
  | closing (front : [']'] <+: text) :
    AtOffset context text (Step.emit context (.mark .rightBracket) 1).pop
  | minus (front : ['-'] <+: text) : AtOffset context text (.emit context (.mark .minus) 1)
  | dollar (front : nextIs (· == '$') text) : AtOffset context text (emitVariable context text)
  | number {step : Step} (first : nextIs Char.isDigit text)
    (makes : Number.MakesKey context (text.takeWhile Char.isDigit) step) :
    AtOffset context text step
  | name (begins : nextIs isLabelStart text) :
    AtOffset context text (.emitShared context .identifier (text.takeWhile isLabelPart).length
      (text.takeWhile isLabelPart))
  | other : AtOffset context text (Step.silent context).pop

/-- Every step between brackets takes one of these. -/
theorem atOffset (context : Context) (text : List Char) :
    AtOffset context text (offsetStep context text) := by
  unfold offsetStep
  split
  · rename_i rest
    exact .bracket ⟨rest, rfl⟩
  · rename_i rest
    exact .closing ⟨rest, rfl⟩
  · rename_i rest
    exact .minus ⟨rest, rfl⟩
  · dsimp only
    split
    · rename_i dollar
      exact .dollar (Bool.and_eq_true_iff.1 dollar).1
    · split
      · rename_i first
        exact .number first (Number.makesKey context text)
      · split
        · rename_i begins
          exact .name begins
        · exact .other

end PhpFrontEnd.Interpolation
