import PhpFrontEnd.Lexer.Heredoc
import PhpFrontEnd.Lexer.Quoted
import PhpFrontEnd.Lexer.Step

/-!
# Code

The first characters decide what is read: blanks, a comment, a closing tag, a variable, a number,
a string or heredoc (with a letter in front if its value is bytes), a name, a cast, or an operator.
A character that begins none of these is a problem and makes a token by itself.

Braces keep the lexer's place: an opening brace enters code again, so that its closing brace
returns to whatever it was opened in, which is how an interpolation ends. An arrow enters the mode
in which a label is a property, never a reserved word.

A documentation comment stays pending until a semicolon or a brace.
-/

namespace PhpFrontEnd.Code

/-! ## Comments and tags -/

/-- The length of a comment that ends with its line. A closing tag ends it too and stays outside;
a line end belongs to it. -/
def lineCommentLength : List Char → Nat
  | [] => 0
  | '\n' :: _ => 1
  | '\r' :: rest => if nextIs (· == '\n') rest then 2 else 1
  | c :: rest => if c == '?' && nextIs (· == '>') rest then 0 else lineCommentLength rest + 1

/-- The number of characters up to and with the end of a block comment, after its beginning. -/
def blockCommentLength? : List Char → Option Nat
  | [] => none
  | c :: rest =>
    if c == '*' && nextIs (· == '/') rest then some 2
    else (blockCommentLength? rest).map (· + 1)

/-- Whether a block comment is a documentation comment: two stars and a blank. -/
def isDocComment (comment : List Char) : Bool :=
  nextIs (· == '*') (comment.drop 2) && nextIs isBlank (comment.drop 3)

/-- A step at a block comment. One without an end takes the rest of the source. -/
def blockCommentStep (context : Context) (start : Nat) (text : List Char) : Step :=
  let end? := blockCommentLength? (text.drop 2)
  let comment :=
    match end? with
    | some length => text.take (length + 2)
    | none => text
  let step :=
    if isDocComment text then
      let doc := { text := String.ofList comment, span := ⟨start, comment.length⟩ }
      Step.emitText { context with doc := some doc } .docComment comment
    else Step.emitText context .comment comment
  if end?.isSome then step else step.report [.unterminatedComment start]

/-- What a step at a block comment takes: a part of the text from its beginning on, or all of it if
the comment has no end. -/
inductive AtBlockComment (context : Context) (start : Nat) (text : List Char) : Step → Prop where
  | plain {comment : List Char} {errors : List LexError} (front : comment <+: text)
    (ne : comment ≠ [])
    (found : ∀ e ∈ errors, comment = text ∧ e = .unterminatedComment start) :
    AtBlockComment context start text { Step.emitText context .comment comment with errors }
  | doc {comment : List Char} {errors : List LexError} (front : comment <+: text)
    (ne : comment ≠ [])
    (found : ∀ e ∈ errors, comment = text ∧ e = .unterminatedComment start) :
    AtBlockComment context start text
      { Step.emitText
          { context with
            doc := some { text := String.ofList comment, span := ⟨start, comment.length⟩ } }
          .docComment comment with errors }

/-- Every step at a block comment takes one of these. -/
theorem atBlockComment (context : Context) (start : Nat) {text : List Char} (ne : text ≠ []) :
    AtBlockComment context start text (blockCommentStep context start text) := by
  unfold blockCommentStep
  rcases blockCommentLength? (text.drop 2) with _ | length
  · have found : ∀ e ∈ [LexError.unterminatedComment start],
        text = text ∧ e = .unterminatedComment start :=
      fun _ mem => ⟨rfl, List.mem_singleton.1 mem⟩
    rcases isDocComment text with _ | _
    · exact .plain (List.prefix_refl text) ne found
    · exact .doc (List.prefix_refl text) ne found
  · have front := List.take_prefix (length + 2) text
    have some : text.take (length + 2) ≠ [] := by simp [ne]
    have found : ∀ e ∈ ([] : List LexError),
        text.take (length + 2) = text ∧ e = .unterminatedComment start :=
      fun _ mem => absurd mem List.not_mem_nil
    rcases isDocComment text with _ | _
    · exact .plain front some found
    · exact .doc front some found

/-- The length of a closing tag, with the line end after it. -/
def closeTagLength (text : List Char) : Nat :=
  2 + (lineEndLength? (text.drop 2)).getD 0

/-! ## Names -/

/-- The number of blanks and letters by which a `yield` goes on to be a `yield from`. -/
def fromLength? (text : List Char) : Option Nat :=
  let blanks := (text.takeWhile isBlank).length
  let rest := text.drop blanks
  if 0 < blanks ∧ startsWithIgnoringCase ['f', 'r', 'o', 'm'] rest ∧
      !nextIs isLabelPart (rest.drop 4) then
    some (blanks + 4)
  else none

/-- The second word is not empty. -/
theorem fromLength?_pos {text : List Char} {length : Nat} (h : fromLength? text = some length) :
    0 < length := by
  unfold fromLength? at h
  dsimp only at h
  split at h
  · obtain rfl := Option.some.inj h
    exact Nat.succ_pos _
  · cases h

/-- A step at a name. -/
def nameStep (context : Context) (text : List Char) : Step :=
  let name := text.takeWhile isLabelPart
  let plain := fun kind => Step.emitShared context kind name.length name
  match Keyword.ofWord? (String.ofList name) with
  | none => plain .identifier
  | some .yield =>
    match fromLength? (text.drop name.length) with
    | none => plain (.keyword .yield)
    | some length =>
      let words := text.take (name.length + length)
      { Step.emitText context .yieldFrom words with
        shared := [String.ofList name, String.ofList words] }
  | some word => plain (.keyword word)

/-- What a step at a name takes: the name alone, or the two words of a `yield from`. -/
inductive AtName (context : Context) (text : List Char) : Step → Prop where
  | word {kind : TokenKind} (isWord : kind = .identifier ∨ ∃ keyword, kind = .keyword keyword) :
    AtName context text (.emitShared context kind (text.takeWhile isLabelPart).length
      (text.takeWhile isLabelPart))
  | yieldFrom {length : Nat} {shared : List String} (pos : 0 < length) :
    AtName context text { Step.emitText context .yieldFrom (text.take length) with shared }

/-- Every step at a name takes one of these. -/
theorem atName (context : Context) (text : List Char) :
    AtName context text (nameStep context text) := by
  unfold nameStep
  dsimp only
  split
  · exact .word (.inl rfl)
  · split
    · exact .word (.inr ⟨_, rfl⟩)
    · rename_i length found
      exact .yieldFrom (Nat.lt_of_lt_of_le (fromLength?_pos found) (Nat.le_add_left _ _))
  · exact .word (.inr ⟨_, rfl⟩)

/-! ## Casts and operators -/

/-- The cast at an opening parenthesis, and its length. -/
def castAt? (text : List Char) : Option (CastType × Nat) :=
  let before := ((text.drop 1).takeWhile isIndent).length
  let rest := text.drop (1 + before)
  let name := rest.takeWhile Char.isAlpha
  let rest := rest.drop name.length
  let after := (rest.takeWhile isIndent).length
  if nextIs (· == ')') (rest.drop after) then
    (CastType.ofWord? (String.ofList name)).map fun type =>
      (type, before + name.length + after + 2)
  else none

/-- What an operator does besides making a token. A closing brace that nothing encloses closes
nothing. -/
def afterMark (step : Step) : Mark → Step
  | .leftBrace => step.dropDoc.push .code
  | .rightBrace =>
    let step := step.dropDoc
    if step.context.enclosing.isEmpty then step else step.pop
  | .semicolon => step.dropDoc
  | .arrow | .nullsafeArrow => step.push .property
  | _ => step

/-- An operator changes what is remembered, and nothing else about a step. -/
theorem afterMark_eq (step : Step) (mark : Mark) :
    ∃ context changes, afterMark step mark = { step with context, changes } := by
  cases mark
  case rightBrace =>
    unfold afterMark
    dsimp only
    split
    · exact ⟨_, _, rfl⟩
    · exact ⟨_, _, rfl⟩
  all_goals exact ⟨_, _, rfl⟩

/-- What a mark does to the modes takes no characters. -/
@[simp] theorem length_afterMark (step : Step) (mark : Mark) :
    (afterMark step mark).length = step.length := by
  obtain ⟨context, changes, eq⟩ := afterMark_eq step mark
  rw [eq]

@[simp] theorem token_afterMark (step : Step) (mark : Mark) :
    (afterMark step mark).token = step.token := by
  obtain ⟨context, changes, eq⟩ := afterMark_eq step mark
  rw [eq]

@[simp] theorem errors_afterMark (step : Step) (mark : Mark) :
    (afterMark step mark).errors = step.errors := by
  obtain ⟨context, changes, eq⟩ := afterMark_eq step mark
  rw [eq]

/-- A step at an operator, or at a character that begins nothing. -/
def markStep (context : Context) (text : List Char) : Step :=
  match Mark.at? text with
  | some (length, mark) => afterMark (.emit context (.mark mark) length) mark
  | none =>
    let step := Step.emit context .badCharacter 1
    match text with
    | c :: _ => step.report [.unexpectedCharacter c]
    | [] => step

/-- What a step at an operator takes, or at a character that begins nothing. -/
inductive AtMark (context : Context) (text : List Char) : Step → Prop where
  | mark {length : Nat} {mark : Mark} (front : Mark.at? text = some (length, mark)) :
    AtMark context text (afterMark (.emit context (.mark mark) length) mark)
  | bad {c : Char} (front : [c] <+: text) :
    AtMark context text ((Step.emit context .badCharacter 1).report [.unexpectedCharacter c])

/-- Every step at an operator takes one of these. -/
theorem atMark (context : Context) {text : List Char} (ne : text ≠ []) :
    AtMark context text (markStep context text) := by
  unfold markStep
  split
  · rename_i front
    exact .mark front
  · obtain ⟨c, rest, rfl⟩ := List.exists_cons_of_ne_nil ne
    exact .bad ⟨rest, rfl⟩

/-! ## The step -/

/-- Whether the text begins with the three brackets that may open a heredoc. -/
def heredocAt (text : List Char) : Bool := ['<', '<', '<'].isPrefixOf text

/-- A step in code, `start` characters from the beginning of the source. -/
def step (settings : Settings) (context : Context) (start : Nat) (text : List Char) : Step :=
  match text with
  | '#' :: '[' :: _ => .emit context (.mark .attributeOpen) 2
  | '#' :: _ => .emitText context .comment (text.take (lineCommentLength text))
  | '/' :: '/' :: _ => .emitText context .comment (text.take (lineCommentLength text))
  | '/' :: '*' :: _ => blockCommentStep context start text
  | '?' :: '>' :: _ => (Step.emit context .closeTag (closeTagLength text)).enter .markup
  | '\\' :: _ => .emit context (.mark .namespaceSeparator) 1
  | '\x27' :: _ => Quoted.singleStep settings context text 0
  | '"' :: _ => Quoted.doubleStep settings context text 0
  | '\x60' :: _ => (Step.emit context .backquote 1).push .backquoted
  | '(' :: _ =>
    match castAt? text with
    | some (type, length) => .emit context (.cast type) length
    | none => markStep context text
  | '<' :: _ =>
    if heredocAt text then
      (HeredocBody.openingStep? context text 0).getD (markStep context text)
    else markStep context text
  | c :: rest =>
    if isBlank c then .emit context .whitespace (text.takeWhile isBlank).length
    else if c == '$' && nextIs isLabelStart rest then Interpolation.emitVariable context text
    else if Number.beginsAt text then Number.step context text
    else if c == 'b' || c == 'B' then
      if nextIs (· == '\x27') rest then Quoted.singleStep settings context text 1
      else if nextIs (· == '"') rest then Quoted.doubleStep settings context text 1
      else if heredocAt rest then
        (HeredocBody.openingStep? context text 1).getD (nameStep context text)
      else nameStep context text
    else if isLabelStart c then nameStep context text
    else markStep context text
  | [] => .silent context

/-! ## What is in front -/

/-- What a step in code takes, and what has to be at the front of the text for it. -/
inductive AtCode (settings : Settings) (context : Context) (start : Nat) (text : List Char) :
    Step → Prop where
  | attributeOpen (front : ['#', '['] <+: text) :
    AtCode settings context start text (.emit context (.mark .attributeOpen) 2)
  | lineComment (front : ['#'] <+: text ∨ ['/', '/'] <+: text) :
    AtCode settings context start text
      (.emitText context .comment (text.take (lineCommentLength text)))
  | blockComment {step : Step} (comment : AtBlockComment context start text step) :
    AtCode settings context start text step
  | closeTag (front : ['?', '>'] <+: text) :
    AtCode settings context start text
      ((Step.emit context .closeTag (closeTagLength text)).enter .markup)
  | separator (front : ['\\'] <+: text) :
    AtCode settings context start text (.emit context (.mark .namespaceSeparator) 1)
  | quote {before : Nat} {step : Step} (front : before < text.length)
    (quoted : Quoted.AtQuote settings context text before step) :
    AtCode settings context start text step
  | backquote (front : ['\x60'] <+: text) :
    AtCode settings context start text ((Step.emit context .backquote 1).push .backquoted)
  | cast {type : CastType} {length : Nat} (front : castAt? text = some (type, length)) :
    AtCode settings context start text (.emit context (.cast type) length)
  | heredoc {before : Nat} {step : Step} (front : heredocAt (text.drop before))
    (opening : HeredocBody.openingStep? context text before = some step) :
    AtCode settings context start text step
  | whitespace (front : nextIs isBlank text) :
    AtCode settings context start text
      (.emit context .whitespace (text.takeWhile isBlank).length)
  | dollar (front : nextIs (· == '$') text) (name : nextIs isLabelStart (text.drop 1)) :
    AtCode settings context start text (Interpolation.emitVariable context text)
  | number (front : Number.beginsAt text) :
    AtCode settings context start text (Number.step context text)
  | name {step : Step} (front : nextIs isLabelStart text) (named : AtName context text step) :
    AtCode settings context start text step
  | mark {step : Step} (marked : AtMark context text step) :
    AtCode settings context start text step

/-- An opening of a heredoc, if that is what the brackets begin, and else another step. -/
theorem AtCode.opening {settings : Settings} {context : Context} {start before : Nat}
    {text : List Char} {other : Step} (front : heredocAt (text.drop before))
    (h : AtCode settings context start text other) : AtCode settings context start text
      ((HeredocBody.openingStep? context text before).getD other) := by
  rcases opening : HeredocBody.openingStep? context text before with _ | step
  · exact h
  · exact .heredoc front opening

/-- **Every step in code** takes one of these. This is the one place where the step is taken apart
by the characters in front. -/
theorem atCode (settings : Settings) (context : Context) (start : Nat) {text : List Char}
    (ne : text ≠ []) :
    AtCode settings context start text (step settings context start text) := by
  have mark : AtCode settings context start text (markStep context text) :=
    .mark (atMark context ne)
  have name (front : nextIs isLabelStart text) :
      AtCode settings context start text (nameStep context text) :=
    .name front (atName context text)
  have single {before : Nat} (front : before < text.length) :
      AtCode settings context start text (Quoted.singleStep settings context text before) :=
    .quote front (Quoted.atSingle settings context text before)
  have double {before : Nat} (front : before < text.length) :
      AtCode settings context start text (Quoted.doubleStep settings context text before) :=
    .quote front (Quoted.atDouble settings context text before)
  unfold step
  split
  case h_1 rest => exact .attributeOpen ⟨rest, rfl⟩
  case h_2 rest _ => exact .lineComment (.inl ⟨rest, rfl⟩)
  case h_3 rest => exact .lineComment (.inr ⟨rest, rfl⟩)
  case h_4 => exact .blockComment (atBlockComment context start ne)
  case h_5 rest => exact .closeTag ⟨rest, rfl⟩
  case h_6 rest => exact .separator ⟨rest, rfl⟩
  case h_7 => exact single (Nat.succ_pos _)
  case h_8 => exact double (Nat.succ_pos _)
  case h_9 rest => exact .backquote ⟨rest, rfl⟩
  case h_10 =>
    split
    · rename_i found
      exact .cast found
    · exact mark
  case h_11 =>
    split
    · rename_i brackets
      exact .opening brackets mark
    · exact mark
  case h_12 c rest _ _ _ _ _ _ _ _ _ _ _ =>
    split
    · rename_i blank
      exact .whitespace blank
    split
    · rename_i dollar
      rw [Bool.and_eq_true] at dollar
      exact .dollar dollar.1 dollar.2
    split
    · rename_i begins
      exact .number begins
    split
    · -- the letter of a binary literal is also the start of a name
      rename_i letter
      have start : nextIs isLabelStart (c :: rest) := by
        rw [Bool.or_eq_true, beq_iff_eq, beq_iff_eq] at letter
        rcases letter with rfl | rfl <;> rfl
      have inside {p : Char → Bool} (quote : nextIs p rest) : 1 < (c :: rest).length := by
        rcases rest with _ | ⟨d, rest⟩
        · cases quote
        · exact Nat.succ_lt_succ (Nat.succ_pos _)
      split
      · rename_i quote
        exact single (inside quote)
      split
      · rename_i quote
        exact double (inside quote)
      split
      · rename_i brackets
        exact .opening brackets (name start)
      · exact name start
    split
    · rename_i start
      exact name start
    · exact mark
  case h_13 => contradiction

end PhpFrontEnd.Code
