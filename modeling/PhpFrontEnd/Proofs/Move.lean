import PhpFrontEnd.Lexer.Run
import PhpFrontEnd.Proofs.BodyEnd

/-!
# What one step can do

There are some sixty ways for a step to come about, spread over eleven modes, but few things that a
step can do. It reads a token that belongs to its mode, goes over to another mode, opens one inside
its own or closes it; which tokens do which is told by four tables (`Mode.reads`, `Mode.enters?`,
`Mode.opens`, `Mode.closes`). Heredocs are apart: a heredoc is opened together with its label, its
body is read up to the closing label, and with that label it is closed. A step without a token
leaves a mode that has no use for the next character.

What a function that makes steps can take is written beside it as an inductive (`Code.AtCode`,
`Quoted.InQuotes` and the like), where the function is taken apart once. Here each of these has a
lemma, with a case for each constructor. `Lexer.step_move` puts them together: every step is one of
the moves, and what is remembered after any run of a lexer follows from the moves alone.
-/

namespace PhpFrontEnd

/-! ## What a token does to the modes -/

/-- The bodies of heredocs and nowdocs. -/
def Mode.isBody : Mode → Bool
  | .heredoc | .nowdoc => true
  | _ => false

/-- The modes in which variables are interpolated. -/
def Mode.interpolates : Mode → Bool
  | .doubleQuoted | .backquoted | .heredoc => true
  | _ => false

/-- The tokens that a mode reads and goes on. -/
def Mode.reads : Mode → TokenKind → Bool
  | .markup, .inlineHtml => true
  | .code, .mark mark =>
    mark != .leftBrace && mark != .rightBrace && mark != .arrow && mark != .nullsafeArrow
  | .code, .whitespace | .code, .comment | .code, .docComment | .code, .integer
  | .code, .wideInteger | .code, .real | .code, .quotedLiteral | .code, .identifier
  | .code, .variable | .code, .keyword _ | .code, .yieldFrom | .code, .cast _
  | .code, .badCharacter => true
  | .singleQuoted, .textRun | .nowdoc, .textRun => true
  | .property, .whitespace | .property, .mark .arrow | .property, .mark .nullsafeArrow => true
  | .offset, .mark .leftBracket | .offset, .mark .minus | .offset, .variable
  | .offset, .offsetNumber | .offset, .identifier => true
  | mode, .textRun | mode, .variable => mode.interpolates
  | _, _ => false

/-- The tokens that lead from markup to code and back. -/
def Mode.enters? : Mode → TokenKind → Option Mode
  | .markup, .openTag | .markup, .openTagWithEcho => some .code
  | .code, .closeTag => some .markup
  | _, _ => none

/-- The tokens that open a mode inside another, except for those that begin a heredoc. -/
def Mode.opens (mode : Mode) (kind : TokenKind) (inner : Mode) : Bool :=
  match kind, inner with
  | .mark .leftBrace, .code | .mark .arrow, .property | .mark .nullsafeArrow, .property
  | .singleQuote, .singleQuoted | .doubleQuote, .doubleQuoted | .backquote, .backquoted =>
    mode == .code
  | .dollarBrace, .variableName | .interpolationBrace, .code | .variable, .offset
  | .variable, .property => mode.interpolates
  | _, _ => false

/-- The tokens that open a mode in code, each with that mode. -/
def Mode.openedInCode : List (TokenKind × Mode) :=
  [(.mark .leftBrace, .code), (.mark .arrow, .property), (.mark .nullsafeArrow, .property),
    (.singleQuote, .singleQuoted), (.doubleQuote, .doubleQuoted), (.backquote, .backquoted)]

/-- The tokens that open a mode where variables are interpolated, each with that mode. -/
def Mode.openedInString : List (TokenKind × Mode) :=
  [(.dollarBrace, .variableName), (.interpolationBrace, .code), (.variable, .offset),
    (.variable, .property)]

/-- No token opens a mode anywhere else. -/
theorem Mode.opener {mode inner : Mode} {kind : TokenKind} (h : mode.opens kind inner) :
    mode = .code ∧ (kind, inner) ∈ openedInCode ∨
      mode.interpolates ∧ (kind, inner) ∈ openedInString := by
  unfold Mode.opens at h
  split at h <;> first
    | contradiction
    | exact .inl ⟨eq_of_beq h, by decide⟩
    | exact .inr ⟨h, by decide⟩

/-- The tokens that close a mode, except for those that end a heredoc. -/
def Mode.closes : Mode → TokenKind → Bool
  | .code, .mark .rightBrace | .doubleQuoted, .doubleQuote | .backquoted, .backquote
  | .singleQuoted, .singleQuote | .property, .identifier | .offset, .mark .rightBracket => true
  | _, _ => false

/-- How a token changes what is remembered, and the changes of modes that it makes. None of these
tokens touches the label of a heredoc; any of them may change the pending documentation comment. -/
inductive Context.Turn (context : Context) : TokenKind → List ModeChange → Context → Prop where
  | stays {kind : TokenKind} (doc : Option DocComment) (h : context.mode.reads kind) :
    Turn context kind [] { context with doc }
  | enters {kind : TokenKind} {mode : Mode} (h : context.mode.enters? kind = some mode) :
    Turn context kind [.enter mode] (context.enter mode)
  | opens {kind : TokenKind} {mode : Mode} (doc : Option DocComment)
    (h : context.mode.opens kind mode) :
    Turn context kind [.push mode] ({ context with doc }.push mode)
  /-- code is closed only if something encloses it -/
  | closes {kind : TokenKind} (doc : Option DocComment) (h : context.mode.closes kind)
    (inside : context.mode = .code → context.enclosing ≠ []) :
    Turn context kind [.pop] ({ context with doc } : Context).pop
  /-- a closing brace that nothing encloses -/
  | unmatched (doc : Option DocComment) (code : context.mode = .code)
    (outermost : context.enclosing = []) :
    Turn context (.mark .rightBrace) [] { context with doc }
  | names (h : context.mode = .variableName) :
    Turn context .bareVariable [.pop, .push .code] (context.pop.push .code)

/-- What a step does with a text that is not empty. -/
inductive Step.Move (context : Context) (text : List Char) (step : Step) : Prop where
  /-- a token apart from those of heredocs -/
  | token {kind : TokenKind} {value : TokenValue} (token : step.token = some (kind, value))
    (pos : 0 < step.length) (le : step.length ≤ text.length)
    (turn : context.Turn kind step.changes step.context)
  /-- the opening of a heredoc or nowdoc, whose label is held from then on -/
  | opensBody {label : String} {mode : Mode} (code : context.mode = .code) (body : mode.isBody)
    (ne : label.toList ≠ []) (token : step.token = some (.heredocStart, .text (.str label)))
    (pos : 0 < step.length) (le : step.length ≤ text.length)
    (same : step.context = { context with label := some label }.push mode)
    (changes : step.changes = [.push mode])
  /-- the last fragment of a body, up to the closing label; blanks alone make no token -/
  | reachesLabel {label : String} (body : context.mode.isBody) (held : context.label = some label)
    (le : step.length ≤ text.length) (front : label.toList <+: text.drop step.length)
    (indent : nextIs isIndent (text.drop step.length) = false)
    (token : (step.token = none ∧ ∀ c ∈ text.take step.length, isBlank c) ∨
      ∃ value, step.token = some (.textRun, value) ∧ 0 < step.length)
    (same : step.context = context.enter .closingLabel)
    (changes : step.changes = [.enter .closingLabel])
  /-- the closing label, which is given up -/
  | closesBody (mode : context.mode = .closingLabel)
    (token : step.token = some (.heredocEnd, (context.label.map (.text ∘ .str)).getD .none))
    (le : step.length ≤ text.length)
    (length : ∀ label, context.label = some label → label.toList <+: text →
      nextIs isIndent text = false → step.length = label.length)
    (same : step.context = { context.pop with label := none }) (changes : step.changes = [.pop])
  /-- nothing, for the mode has no use for the next character -/
  | leaves (free : context.mode = .property ∨ context.mode = .offset ∨
      context.mode.isBody ∧ context.label = none)
    (token : step.token = none) (zero : step.length = 0) (same : step.context = context.pop)
    (changes : step.changes = [.pop])
  /-- nothing, for no bare variable follows -/
  | looksOn (mode : context.mode = .variableName) (token : step.token = none)
    (zero : step.length = 0) (same : step.context = context.pop.push .code)
    (changes : step.changes = [.pop, .push .code])

namespace Context.Turn

/-- A token that changes nothing. -/
theorem same {context : Context} {kind : TokenKind} (h : context.mode.reads kind) :
    context.Turn kind [] context :=
  .stays context.doc h

/-- A token that closes a mode other than code. -/
theorem leaves {context : Context} {kind : TokenKind} (h : context.mode.closes kind)
    (other : context.mode ≠ .code) : context.Turn kind [.pop] context.pop :=
  .closes context.doc h fun code => absurd code other

/-- The tokens of heredocs and the end token are not among them. -/
theorem kind_ne {context after : Context} {kind : TokenKind} {changes : List ModeChange}
    (turn : context.Turn kind changes after) :
    kind ≠ .heredocStart ∧ kind ≠ .heredocEnd ∧ kind ≠ .endOfSource := by
  cases turn with
  | stays _ h | enters h | closes _ h =>
    refine ⟨?_, ?_, ?_⟩ <;> rintro rfl <;> revert h <;>
      cases context.mode <;> simp [Mode.reads, Mode.enters?, Mode.closes]
  | opens _ h => refine ⟨?_, ?_, ?_⟩ <;> rintro rfl <;> simp [Mode.opens] at h
  | unmatched | names => exact ⟨nofun, nofun, nofun⟩

/-- No token apart from those of heredocs is read in front of a closing label. -/
theorem mode_ne_closingLabel {context after : Context} {kind : TokenKind}
    {changes : List ModeChange} (turn : context.Turn kind changes after) :
    context.mode ≠ .closingLabel := by
  intro mode
  cases turn with
  | stays _ h | enters h | closes _ h =>
    rw [mode] at h
    cases kind <;> cases h
  | opens _ h =>
    rw [mode] at h
    obtain ⟨code, -⟩ | ⟨interpolates, -⟩ := Mode.opener h
    · cases code
    · cases interpolates
  | unmatched _ h | names h =>
    rw [mode] at h
    cases h

end Context.Turn

/-- To go back to an enclosing mode leaves the label alone. -/
theorem Context.label_pop (context : Context) : context.pop.label = context.label := by
  rw [pop]
  split <;> rfl

/-- Leaving a mode leads to code or to a mode that enclosed it. -/
theorem Context.mode_pop (context : Context) :
    context.pop.mode = .code ∨ context.pop.mode ∈ context.enclosing := by
  rw [pop]
  split
  · exact .inl rfl
  · rename_i mode enclosing eq
    rw [eq]
    exact .inr List.mem_cons_self

/-- It makes no difference whether the label is given up before or after a mode is left. -/
theorem Context.pop_forget_label (context : Context) :
    { context with label := none }.pop = { context.pop with label := none } := by
  obtain ⟨mode, enclosing, label, doc⟩ := context
  cases enclosing with
  | nil => rfl
  | cons outer enclosing => rfl

/-- A label that is not held need not be given up. -/
theorem Context.forget_label {context : Context} (h : context.label = none) :
    { context with label := none } = context := by
  cases context
  cases h
  rfl

/-- The end token comes at the end only. -/
theorem Step.Move.ne_endOfSource {context : Context} {text : List Char} {step : Step}
    {kind : TokenKind} {value : TokenValue} (h : step.Move context text)
    (made : step.token = some (kind, value)) : kind ≠ .endOfSource := by
  cases h with
  | token token pos le turn =>
    obtain ⟨rfl, rfl⟩ := Step.token_inj token made
    exact turn.kind_ne.2.2
  | opensBody code body ne token | closesBody mode token =>
    obtain ⟨rfl, rfl⟩ := Step.token_inj token made
    exact nofun
  | reachesLabel body held le front indent token =>
    rcases token with ⟨token, -⟩ | ⟨value, token, -⟩
    · rw [token] at made
      cases made
    · obtain ⟨rfl, rfl⟩ := Step.token_inj token made
      exact nofun
  | leaves free token | looksOn mode token =>
    rw [token] at made
    cases made

/-! ## Lengths -/

/-- Where something is next there is a text. -/
theorem length_pos_of_nextIs {p : Char → Bool} {text : List Char} (h : nextIs p text) :
    0 < text.length := by
  cases text with
  | nil => simp [nextIs] at h
  | cons c rest => simp

/-- A line end is within its text. -/
theorem lineEndLength?_le {text : List Char} {length : Nat}
    (h : lineEndLength? text = some length) : length ≤ text.length := by
  unfold lineEndLength? at h
  split at h <;> simp at h <;> subst h <;> simp

theorem length_takeWhile_le (p : Char → Bool) (text : List Char) :
    (text.takeWhile p).length ≤ text.length :=
  (List.takeWhile_sublist p).length_le

/-- A word that a text starts with is no longer than the text. -/
theorem startsWithIgnoringCase_le {word text : List Char}
    (h : startsWithIgnoringCase word text) : word.length ≤ text.length := by
  simp only [startsWithIgnoringCase, Bool.and_eq_true, decide_eq_true_eq] at h
  exact h.1

/-! ## Markup -/

/-- An open tag is within its text. -/
theorem Markup.openTagAt?_le {settings : Settings} {text : List Char} {kind : TokenKind}
    {length : Nat} (h : openTagAt? settings text = some (kind, length)) :
    length ≤ text.length := by
  unfold openTagAt? at h
  split at h
  · rename_i rest
    have short {found : Option (TokenKind × Nat)} (h : found = some (kind, length))
        (eq : found = if settings.shortTags then some (.openTag, 2) else none) :
        length ≤ rest.length + 2 := by
      rw [eq] at h
      split at h <;> simp_all
    dsimp only at h
    split at h
    · rename_i equals
      have := length_pos_of_nextIs equals
      grind
    · split at h
      · rename_i php
        have long := startsWithIgnoringCase_le php
        have drop : (rest.drop 3).length = rest.length - 3 := List.length_drop
        split at h
        · grind
        · grind
        · split at h
          · grind
          · simpa using short h rfl
      · simpa using short h rfl
  · contradiction

/-- There are two kinds of open tags. -/
theorem Markup.openTagAt?_kind {settings : Settings} {text : List Char} {kind : TokenKind}
    {length : Nat} (h : openTagAt? settings text = some (kind, length)) :
    kind = .openTag ∨ kind = .openTagWithEcho := by
  unfold openTagAt? at h
  grind

/-- Markup is read up to an open tag, and an open tag leads to code. -/
theorem Markup.AtMarkup.move {settings : Settings} {context : Context} {text : List Char}
    {step : Step} (h : AtMarkup settings context text step) (mode : context.mode = .markup)
    (ne : text ≠ []) : step.Move context text := by
  cases h with
  | tag front =>
    refine .token rfl (openTagAt?_pos front) (openTagAt?_le front) (.enters ?_)
    rw [mode]
    rcases openTagAt?_kind front with rfl | rfl <;> rfl
  | run noTag =>
    obtain ⟨c, rest, rfl⟩ := List.exists_cons_of_ne_nil ne
    have := textLength_pos noTag
    refine .token rfl ?_ (List.length_take_le' _ _) (.same (by rw [mode]; rfl))
    simp only [Step.emitText, List.length_take, List.length_cons]
    omega

/-! ## Numbers -/

/-- A number is read in code, whatever is found wrong with it. -/
theorem Number.Makes.move {context : Context} {literal text : List Char} {step : Step}
    (h : Makes context literal step) (mode : context.mode = .code) (ne : literal ≠ [])
    (front : literal <+: text) : step.Move context text := by
  have pos := List.length_pos_iff.2 ne
  have le := front.length_le
  cases h with
  | @word _ _ value =>
    obtain ⟨read, h | h⟩ := integerToken_eq .integer .wideInteger value
    · exact .token (congrArg some h) pos le (.same (by rw [mode]; rfl))
    · exact .token (congrArg some h) pos le (.same (by rw [mode]; rfl))
  | tooBig | real => exact .token rfl pos le (.same (by rw [mode]; rfl))

/-- A number is read in an offset. -/
theorem Number.MakesKey.move {context : Context} {digits text : List Char} {step : Step}
    (h : MakesKey context digits step) (mode : context.mode = .offset) (ne : digits ≠ [])
    (front : digits <+: text) : step.Move context text := by
  have pos := List.length_pos_iff.2 ne
  have le := front.length_le
  have reads : context.mode.reads .offsetNumber := by
    rw [mode]
    rfl
  cases h with
  | padded | tooBig => exact .token rfl pos le (.same reads)
  | @word value =>
    obtain ⟨read, h | h⟩ := integerToken_eq .offsetNumber .offsetNumber value
    · exact .token (congrArg some h) pos le (.same reads)
    · exact .token (congrArg some h) pos le (.same reads)

/-! ## Interpolations -/

/-- A label after one character, as in a variable. -/
theorem length_label_lt {text : List Char} (h : text ≠ []) :
    ((text.drop 1).takeWhile isLabelPart).length + 1 ≤ text.length := by
  have := length_takeWhile_le isLabelPart (text.drop 1)
  have := List.length_pos_iff.2 h
  simp only [List.length_drop] at *
  omega

/-- An interpolation opens the mode of what follows its first token. -/
theorem Interpolation.AtStart.move {context : Context} {text : List Char} {step : Step}
    (h : AtStart context text step) (mode : context.mode.interpolates) (ne : text ≠ []) :
    step.Move context text := by
  have reads : context.mode.reads .variable := by
    revert mode
    cases context.mode <;> simp [Mode.interpolates, Mode.reads]
  cases h with
  | dollarBrace front => exact .token rfl Nat.two_pos front.length_le (.opens context.doc mode)
  | brace front => exact .token rfl Nat.one_pos front.length_le (.opens context.doc mode)
  | element | property =>
    exact .token rfl (Nat.succ_pos _) (length_label_lt ne) (.opens context.doc mode)
  | plain => exact .token rfl (Nat.succ_pos _) (length_label_lt ne) (.same reads)

/-- A property is left with its name, or if no name comes. -/
theorem Interpolation.AtProperty.move {context : Context} {text : List Char} {step : Step}
    (h : AtProperty context text step) (mode : context.mode = .property) :
    step.Move context text := by
  cases h with
  | blanks blank =>
    exact .token rfl (List.length_pos_iff.2 (takeWhile_ne_nil blank))
      (length_takeWhile_le isBlank text) (.same (by rw [mode]; rfl))
  | arrow front | nullsafeArrow front =>
    exact .token rfl (Nat.succ_pos _) front.length_le (.same (by rw [mode]; rfl))
  | name begins =>
    exact .token rfl (List.length_pos_iff.2 (takeWhile_ne_nil (nextIs_isLabelPart begins)))
      (length_takeWhile_le isLabelPart text) (.leaves (by rw [mode]; rfl) (by rw [mode]; decide))
  | other => exact .leaves (.inl mode) rfl rfl rfl rfl

/-- The name in `${` becomes a token if an end or an offset follows; in any case code is next. -/
theorem Interpolation.AtVariableName.move {context : Context} {text : List Char} {step : Step}
    (h : AtVariableName context text step) (mode : context.mode = .variableName) :
    step.Move context text := by
  cases h with
  | name begins =>
    exact .token rfl (List.length_pos_iff.2 (takeWhile_ne_nil (nextIs_isLabelPart begins)))
      (length_takeWhile_le isLabelPart text) (.names mode)
  | other => exact .looksOn mode rfl rfl rfl rfl

/-- An offset is left with its bracket, or at a character it has no use for. -/
theorem Interpolation.AtOffset.move {context : Context} {text : List Char} {step : Step}
    (h : AtOffset context text step) (mode : context.mode = .offset) : step.Move context text := by
  cases h with
  | bracket front | minus front =>
    exact .token rfl Nat.one_pos front.length_le (.same (by rw [mode]; rfl))
  | closing front =>
    exact .token rfl Nat.one_pos front.length_le
      (.leaves (by rw [mode]; rfl) (by rw [mode]; decide))
  | dollar front =>
    have ne := List.length_pos_iff.1 (length_pos_of_nextIs front)
    exact .token rfl (Nat.succ_pos _) (length_label_lt ne) (.same (by rw [mode]; rfl))
  | number first makes =>
    exact makes.move mode (takeWhile_ne_nil first) (List.takeWhile_prefix _)
  | name begins =>
    exact .token rfl (List.length_pos_iff.2 (takeWhile_ne_nil (nextIs_isLabelPart begins)))
      (length_takeWhile_le isLabelPart text) (.same (by rw [mode]; rfl))
  | other => exact .leaves (.inr (.inl mode)) rfl rfl rfl rfl

/-! ## Strings -/

/-- A closed string is one token, and any other quote opens a mode. -/
theorem Quoted.AtQuote.move {settings : Settings} {context : Context} {text : List Char}
    {before : Nat} {step : Step} (h : AtQuote settings context text before step)
    (mode : context.mode = .code) (lt : before < text.length) : step.Move context text := by
  have ne : text ≠ [] := by
    rintro rfl
    contradiction
  cases h with
  | closed =>
    exact .token rfl (List.length_pos_iff.2 (by simp [ne])) (List.length_take_le' _ _)
      (.same (by rw [mode]; rfl))
  | single | double =>
    exact .token rfl (Nat.succ_pos _) lt (.opens context.doc (by rw [mode]; rfl))

/-- A string that is read in pieces goes on with a run, an interpolation or its quote. -/
theorem Quoted.InQuotes.move {settings : Settings} {context : Context} {quote : Char}
    {kind : TokenKind} {escapes : EscapeMode} {interpolates : Bool} {text : List Char}
    {step : Step} (h : InQuotes settings context quote kind escapes interpolates text step)
    (closes : context.mode.closes kind) (reads : context.mode.reads .textRun)
    (opens : interpolates → context.mode.interpolates) (ne : text ≠ []) :
    step.Move context text := by
  have notCode : context.mode ≠ .code := by
    intro code
    rw [code] at reads
    cases reads
  cases h with
  | closing =>
    exact .token rfl Nat.one_pos (List.length_pos_iff.2 ne) (.leaves closes notCode)
  | interpolation interpolates_eq _ front => exact front.move (opens interpolates_eq) ne
  | run noQuote noStart =>
    exact .token rfl (List.length_pos_iff.2 (run_ne_nil ne noQuote noStart))
      (List.length_take_le' _ _) (.same reads)

/-! ## Heredocs -/

/-- What an opening is made of: a label that is not empty, and no more than there is. -/
theorem HeredocBody.Opening.after?_eq_some {text : List Char} {opening : Opening}
    (h : Opening.after? text = some opening) :
    opening.label ≠ [] ∧ opening.length ≤ text.length := by
  unfold Opening.after? at h
  dsimp only at h
  split at h
  · rename_i fits
    obtain ⟨lineEnd, eq, rfl⟩ := Option.map_eq_some_iff.1 h
    rw [Bool.and_eq_true, List.isPrefixOf_iff_prefix] at fits
    refine ⟨List.length_pos_iff.1 (length_pos_of_nextIs fits.1), ?_⟩
    have ends := lineEndLength?_le eq
    have quote := fits.2.length_le
    have pos := length_pos_of_nextIs fits.1
    have label := length_takeWhile_le isLabelPart
      ((text.drop (text.takeWhile isIndent).length).drop
        ((text.drop (text.takeWhile isIndent).length).head?.filter
          fun c => c == '\x27' || c == '"').toList.length)
    simp only [List.length_drop] at *
    omega
  · contradiction

/-- An opening is at least as long as its arrows and holds its label. -/
theorem HeredocBody.openingStep?_move {context : Context} {text : List Char} {before : Nat}
    {step : Step} (mode : context.mode = .code) (le : before + 3 ≤ text.length)
    (h : openingStep? context text before = some step) : step.Move context text := by
  obtain ⟨opening, eq, rfl⟩ := Option.map_eq_some_iff.1 h
  obtain ⟨ne, length⟩ := Opening.after?_eq_some eq
  refine .opensBody mode ?_ (by simpa using ne) rfl
    (Nat.lt_of_lt_of_le (Nat.succ_pos _) (Nat.le_add_right _ _)) ?_ rfl rfl
  · split <;> rfl
  · rw [List.length_drop] at length
    simp only [Step.emitShared, Step.length_change]
    omega

theorem drop_length_take (n : Nat) (text : List Char) :
    text.drop (text.take n).length = text.drop n := by
  rw [List.length_take]
  rcases Nat.le_total n text.length with le | le
  · rw [Nat.min_eq_left le]
  · rw [Nat.min_eq_right le, List.drop_length, List.drop_eq_nil_of_le le]

theorem take_length_take (n : Nat) (text : List Char) :
    text.take (text.take n).length = text.take n := by
  rw [List.length_take, List.take_eq_take_min, Nat.min_assoc, Nat.min_self, ← List.take_eq_take_min]

/-- The last fragment of a body ends in front of the closing label and its indentation. -/
theorem HeredocBody.closeStep_move {settings : Settings} {context : Context} {label : String}
    {text : List Char} {isNowdoc lineStart : Bool} {before indent : Nat}
    (body : context.mode.isBody) (held : context.label = some label)
    (closes : Heredoc.ClosesAt label.toList text lineStart before indent) :
    (closeStep settings context isNowdoc lineStart (text.take (before + indent))).Move context
      text := by
  have front : label.toList <+: text.drop (text.take (before + indent)).length := by
    rw [drop_length_take]
    exact closes.isPrefix
  have noIndent : nextIs isIndent (text.drop (text.take (before + indent)).length) = false := by
    rw [drop_length_take]
    exact closes.not_indent
  have le := List.length_take_le' (before + indent) text
  rw [closeStep_eq]
  dsimp only
  split
  · -- blanks alone make no token
    rename_i nil
    refine .reachesLabel body held le front noIndent (.inl ⟨rfl, ?_⟩) rfl rfl
    rw [Step.length_change, take_length_take]
    exact closes.isBlank_of_dedentLast (List.isEmpty_iff.1 nil)
  · rename_i some
    refine .reachesLabel body held le front noIndent (.inr ⟨_, rfl, ?_⟩) rfl rfl
    refine List.length_pos_iff.2 fun nil => some ?_
    rw [nil]
    rcases lineStart with _ | _ <;> rfl

/-- A body goes on with a fragment or an interpolation, up to its label. -/
theorem HeredocBody.AtBody.move {settings : Settings} {context : Context} {lineStart : Bool}
    {text : List Char} {isNowdoc : Bool} {step : Step}
    (h : AtBody settings context lineStart text isNowdoc step)
    (mode : context.mode = if isNowdoc then .nowdoc else .heredoc) (ne : text ≠ []) :
    step.Move context text := by
  have body : context.mode.isBody := by
    rw [mode]
    cases isNowdoc <;> rfl
  have reads : context.mode.reads .textRun := by
    rw [mode]
    cases isNowdoc <;> rfl
  cases h with
  | unlabelled none => exact .leaves (.inr (.inr ⟨body, none⟩)) rfl rfl rfl rfl
  | closes held closes => exact closeStep_move body held closes
  | interpolates starts => exact (Interpolation.atStart context text).move (by rw [mode]; rfl) ne
  | fragment held pos =>
    have := List.length_pos_iff.2 ne
    refine .token rfl ?_ (List.length_take_le' _ _) (.same reads)
    simp only [fragmentStep, Step.emitRun, List.length_take]
    omega
  | source => exact .token rfl (List.length_pos_iff.2 ne) (Nat.le_refl _) (.same reads)

theorem takeWhile_eq_nil {p : Char → Bool} {text : List Char} (h : nextIs p text = false) :
    text.takeWhile p = [] := by
  cases text with
  | nil => rfl
  | cons c rest => exact List.takeWhile_cons_of_neg (by simpa [nextIs] using h)

/-- The label in front of which a body ended is taken as a whole. -/
theorem HeredocBody.AtClosing.move {context : Context} {text : List Char} {step : Step}
    (h : AtClosing context text step) (mode : context.mode = .closingLabel) :
    step.Move context text := by
  have blanks := length_takeWhile_le isIndent text
  cases h with
  | gone gone =>
    have none : context.pop.label = none := context.label_pop.trans gone
    refine .closesBody mode (by rw [gone]; rfl) blanks ?_ (Context.forget_label none).symm rfl
    intro label some
    rw [gone] at some
    cases some
  | @label label length held eq =>
    refine .closesBody mode (by rw [held]; rfl) ?_ ?_ (Context.pop_forget_label context) rfl
    · change (text.takeWhile isIndent).length + length ≤ text.length
      rw [eq]
      split
      · rename_i fits
        have le := (List.isPrefixOf_iff_prefix.1 fits).length_le
        rw [List.length_drop, String.length_toList] at le
        omega
      · exact blanks
    · -- without blanks in front the label is all that is taken
      intro other same front noIndent
      obtain rfl := Option.some.inj (held.symm.trans same)
      have fits := List.isPrefixOf_iff_prefix.2 front
      simp [eq, takeWhile_eq_nil noIndent, fits]

/-! ## Code -/

/-- A mark is within its text. -/
theorem Mark.at?_le {text : List Char} {length : Nat} {mark : Mark}
    (h : Mark.at? text = some (length, mark)) : length ≤ text.length := by
  obtain ⟨⟨spelling, found⟩, -, h⟩ := List.exists_of_findSome?_eq_some h
  dsimp only at h
  split at h
  · rename_i fits
    simp only [Option.some.injEq, Prod.mk.injEq] at h
    rw [← h.1, ← String.length_toList]
    exact (List.isPrefixOf_iff_prefix.1 fits).length_le
  · contradiction

/-- What an operator changes goes with its token. -/
theorem Code.afterMark_turn {step : Step} (fresh : step.changes = [])
    (mode : step.context.mode = .code) (mark : Mark) :
    step.context.Turn (.mark mark) (afterMark step mark).changes (afterMark step mark).context := by
  have changed (change : ModeChange) : (step.change change).changes = [change] := by
    rw [Step.change, fresh, List.nil_append]
  unfold afterMark
  split
  · rw [show (step.dropDoc.push .code).changes = [.push .code] from changed _]
    exact .opens none (by rw [mode]; rfl)
  · dsimp only
    split
    · rename_i empty
      rw [show step.dropDoc.changes = [] from fresh]
      exact .unmatched none mode (List.isEmpty_iff.1 empty)
    · rename_i some
      rw [show step.dropDoc.pop.changes = [.pop] from changed _]
      exact .closes none (by rw [mode]; rfl) fun _ nil => some (List.isEmpty_iff.2 nil)
  · rw [show step.dropDoc.changes = [] from fresh]
    exact .stays none (by rw [mode]; rfl)
  · rw [show (step.push .property).changes = [.push .property] from changed _]
    exact .opens step.context.doc (by rw [mode]; rfl)
  · rw [show (step.push .property).changes = [.push .property] from changed _]
    exact .opens step.context.doc (by rw [mode]; rfl)
  · rw [fresh]
    refine .same ?_
    rw [mode]
    cases mark <;> first | rfl | contradiction

/-- A mark is read as one, any other character as a bad one. -/
theorem Code.AtMark.move {context : Context} {text : List Char} {step : Step}
    (h : AtMark context text step) (mode : context.mode = .code) : step.Move context text := by
  cases h with
  | @mark length mark front =>
    refine .token (token_afterMark _ mark) ?_ ?_
      (@afterMark_turn (.emit context (.mark mark) length) rfl mode mark)
    · rw [length_afterMark]
      exact Mark.at?_pos front
    · rw [length_afterMark]
      exact Mark.at?_le front
  | bad front => exact .token rfl Nat.one_pos front.length_le (.same (by rw [mode]; rfl))

/-- A name is a keyword, `yield from` or an identifier, and is read in code. -/
theorem Code.AtName.move {context : Context} {text : List Char} {step : Step}
    (h : AtName context text step) (mode : context.mode = .code)
    (front : nextIs isLabelStart text) : step.Move context text := by
  cases h with
  | word isWord =>
    refine .token rfl (List.length_pos_iff.2 (takeWhile_ne_nil (nextIs_isLabelPart front)))
      (length_takeWhile_le isLabelPart text) (.same ?_)
    rw [mode]
    obtain rfl | ⟨keyword, rfl⟩ := isWord <;> rfl
  | yieldFrom pos =>
    have some := length_pos_of_nextIs front
    refine .token rfl ?_ (List.length_take_le' _ _) (.same (by rw [mode]; rfl))
    simp only [Step.emitText, List.length_take]
    omega

/-- A block comment ends at its end or with the source. -/
theorem Code.AtBlockComment.move {context : Context} {start : Nat} {text : List Char} {step : Step}
    (h : AtBlockComment context start text step) (mode : context.mode = .code) :
    step.Move context text := by
  cases h with
  | plain front ne =>
    exact .token rfl (List.length_pos_iff.2 ne) front.length_le (.same (by rw [mode]; rfl))
  | doc front ne =>
    exact .token rfl (List.length_pos_iff.2 ne) front.length_le (.stays _ (by rw [mode]; rfl))

/-- A cast is within its text. -/
theorem Code.castAt?_le {text : List Char} {type : CastType} {length : Nat}
    (h : castAt? text = some (type, length)) : length ≤ text.length := by
  unfold castAt? at h
  dsimp only at h
  split at h
  · rename_i paren
    simp only [Option.map_eq_some_iff, Prod.mk.injEq] at h
    obtain ⟨_, -, -, rfl⟩ := h
    have := length_pos_of_nextIs paren
    simp only [List.length_drop] at this
    omega
  · contradiction

theorem Code.closeTagLength_le {text : List Char} (h : 2 ≤ text.length) :
    closeTagLength text ≤ text.length := by
  rw [closeTagLength]
  rcases eq : lineEndLength? (text.drop 2) with _ | length
  · exact h
  · have := lineEndLength?_le eq
    rw [List.length_drop] at this
    simp only [Option.getD_some]
    omega

theorem Code.heredocAt_le {text : List Char} (h : heredocAt text) : 3 ≤ text.length :=
  (List.isPrefixOf_iff_prefix.1 h).length_le

/-- Every step in code is one of the moves. -/
theorem Code.AtCode.move {settings : Settings} {context : Context} {start : Nat}
    {text : List Char} {step : Step} (h : AtCode settings context start text step)
    (mode : context.mode = .code) (ne : text ≠ []) : step.Move context text := by
  have reads {kind : TokenKind} (h : Mode.code.reads kind) : context.mode.reads kind := by
    rw [mode]
    exact h
  cases h with
  | attributeOpen front => exact .token rfl Nat.two_pos front.length_le (.same (reads rfl))
  | lineComment front =>
    refine .token rfl ?_ (List.length_take_le' _ _) (.same (reads rfl))
    have pos := lineCommentLength_pos front
    have some := List.length_pos_iff.2 ne
    simp only [Step.emitText, List.length_take]
    omega
  | blockComment comment => exact comment.move mode
  | closeTag front =>
    refine .token rfl ?_ (closeTagLength_le front.length_le) (.enters (by rw [mode]; rfl))
    exact Nat.lt_of_lt_of_le Nat.two_pos (Nat.le_add_right _ _)
  | separator front => exact .token rfl Nat.one_pos front.length_le (.same (reads rfl))
  | quote front quoted => exact quoted.move mode front
  | backquote front =>
    exact .token rfl Nat.one_pos front.length_le (.opens context.doc (by rw [mode]; rfl))
  | cast front => exact .token rfl (castAt?_pos front) (castAt?_le front) (.same (reads rfl))
  | heredoc front opening =>
    refine HeredocBody.openingStep?_move mode ?_ opening
    have brackets := heredocAt_le front
    rw [List.length_drop] at brackets
    omega
  | whitespace front =>
    exact .token rfl (List.length_pos_iff.2 (takeWhile_ne_nil front))
      (length_takeWhile_le isBlank text) (.same (reads rfl))
  | dollar => exact .token rfl (Nat.succ_pos _) (length_label_lt ne) (.same (reads rfl))
  | number front =>
    obtain ⟨literal, ne, isPrefix, makes⟩ := Number.exists_makes context front
    exact makes.move mode ne isPrefix
  | name front named => exact named.move mode front
  | mark marked => exact marked.move mode

/-! ## Lexers -/

/-- Every step is one of the moves. -/
theorem Lexer.step_move {lexer : Lexer} (h : lexer.rest ≠ []) :
    lexer.step.Move lexer.context lexer.rest := by
  rw [step_eq h]
  cases mode : lexer.context.mode with
  | markup => exact (Markup.atMarkup ..).move mode h
  | code => exact (Code.atCode _ _ _ h).move mode h
  | doubleQuoted | backquoted =>
    refine (Quoted.inInterpolated ..).move (by rw [mode]; rfl) (by rw [mode]; rfl) (fun _ => ?_) h
    rw [mode]
    rfl
  | singleQuoted =>
    exact (Quoted.inSingleQuoted ..).move (by rw [mode]; rfl) (by rw [mode]; rfl)
      (fun interpolates => absurd interpolates Bool.false_ne_true) h
  | heredoc => exact HeredocBody.atBody_heredoc.move mode h
  | nowdoc => exact HeredocBody.atBody_nowdoc.move mode h
  | closingLabel => exact (HeredocBody.atClosing ..).move mode
  | property => exact (Interpolation.atProperty ..).move mode
  | variableName => exact (Interpolation.atVariableName ..).move mode
  | offset => exact (Interpolation.atOffset ..).move mode

/-! ## Labels -/

/-- A label that is held is not empty. -/
def Context.Named (context : Context) : Prop :=
  ∀ label, context.label = some label → label.toList ≠ []

/-- Only heredocs change the label. -/
theorem Context.Turn.label_eq {context after : Context} {kind : TokenKind}
    {changes : List ModeChange} (turn : context.Turn kind changes after) :
    after.label = context.label := by
  cases turn with
  | stays => rfl
  | enters => rfl
  | opens => rfl
  | closes doc => exact label_pop _
  | unmatched => rfl
  | names => exact label_pop context

theorem Step.Move.named {context : Context} {text : List Char} {step : Step}
    (h : step.Move context text) (named : context.Named) : step.context.Named := by
  have keeps (eq : step.context.label = context.label) : step.context.Named :=
    fun label held => named label (eq ▸ held)
  cases h with
  | token token pos le turn => exact keeps turn.label_eq
  | @opensBody label mode code body ne token pos le same =>
    intro name held
    rw [same] at held
    obtain rfl := Option.some.inj held
    exact ne
  | reachesLabel body held le front indent token same =>
    exact keeps (by rw [same]; rfl)
  | closesBody mode token le length same =>
    intro name held
    rw [same] at held
    cases held
  | leaves free token zero same => exact keeps (by rw [same]; exact Context.label_pop context)
  | looksOn mode token zero same => exact keeps (by rw [same]; exact Context.label_pop context)

/-- In a body without a label a lexer does not stay. -/
theorem Lexer.step_of_label_eq_none {lexer : Lexer} (ne : lexer.rest ≠ [])
    (body : lexer.context.mode.isBody) (h : lexer.context.label = none) :
    lexer.step = (Step.silent lexer.context).pop := by
  rw [step_eq ne]
  cases mode : lexer.context.mode with
  | heredoc => rw [HeredocBody.heredocStep, h]
  | nowdoc => rw [HeredocBody.nowdocStep, h]
  | _ =>
    rw [mode] at body
    cases body

end PhpFrontEnd
