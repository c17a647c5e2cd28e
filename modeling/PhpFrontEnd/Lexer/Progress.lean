import PhpFrontEnd.Lexer.Basic

/-!
# A lexer gets on

Most steps take characters, and those that take none leave a mode: the mode after an arrow, a
bracket or a dollar sign and a brace that found nothing to do, the body of a heredoc whose closing
label is next, or that label itself. To see that this cannot go on for ever, every context is given
a weight that such a step lowers (`Context.weight`), and every lexer the amount of work it has left
(`Lexer.work`), in which a character counts for more than a step can add to the weight.

The main statement is `Lexer.work_advance_lt`: as long as something is left of the source, a step
lowers the work.
-/

namespace PhpFrontEnd

/-- How much a mode may still do without taking a character. -/
def Mode.weight : Mode → Nat
  | .code => 0
  | .heredoc | .nowdoc => 4
  | _ => 3

/-- How much a context may still do without a character being taken. -/
def Context.weight (context : Context) : Nat :=
  2 * context.enclosing.length + context.mode.weight

/-- A step gets on if it takes characters and opens at most one mode, or takes none and lowers the
weight. -/
inductive Step.GetsOn (context : Context) (step : Step) : Prop where
  | takes (pos : 0 < step.length)
      (le : step.context.enclosing.length ≤ context.enclosing.length + 1)
  | leaves (zero : step.length = 0) (lt : step.context.weight < context.weight)

/-! ## Contexts -/

/-- No mode weighs more than the body of a heredoc. -/
theorem Mode.weight_le (mode : Mode) : mode.weight ≤ 4 := by
  cases mode <;> decide

/-- The mode that another is opened in is the first to be returned to. -/
@[simp] theorem Context.enclosing_push (context : Context) (mode : Mode) :
    (context.push mode).enclosing = context.mode :: context.enclosing := rfl

@[simp] theorem Context.enclosing_enter (context : Context) (mode : Mode) :
    (context.enter mode).enclosing = context.enclosing := rfl

/-- Nothing is left to return to where nothing encloses the mode that is left. -/
theorem Context.enclosing_pop (context : Context) :
    context.pop.enclosing = context.enclosing.tail := by
  rw [pop]
  split <;> simp_all

/-- Leaving a mode does not add to what encloses it. -/
theorem Context.length_enclosing_pop (context : Context) :
    context.pop.enclosing.length ≤ context.enclosing.length := by
  simp [enclosing_pop]

/-- A change of modes opens one mode at most. -/
theorem Context.length_enclosing_change_le (context : Context) (change : ModeChange) :
    (context.change change).enclosing.length ≤ context.enclosing.length + 1 := by
  cases change with
  | push inner => exact Nat.le_refl _
  | pop => exact Nat.le_succ_of_le context.length_enclosing_pop
  | enter mode => exact Nat.le_succ _

/-- Leaving a mode lowers the weight, unless it was code. -/
theorem Context.weight_pop_lt {context : Context} (h : 3 ≤ context.mode.weight) :
    context.pop.weight < context.weight := by
  unfold weight pop
  split
  · simp only [Mode.weight] at *
    omega
  · rename_i mode enclosing h'
    have := mode.weight_le
    simp only [h', List.length_cons]
    omega

namespace Step.GetsOn

variable {context : Context} {text : List Char}

/-- A token of at least one character after which no further mode is open. -/
theorem emit {after : Context} {kind : TokenKind} {length : Nat} (pos : 0 < length)
    (le : after.enclosing.length ≤ context.enclosing.length + 1) :
    GetsOn context (.emit after kind length) :=
  .takes pos le

/-- What a token carries makes no difference to how far it gets. -/
theorem emitShared {after : Context} {kind : TokenKind} {length : Nat} {name : List Char}
    (pos : 0 < length) (le : after.enclosing.length ≤ context.enclosing.length + 1) :
    GetsOn context (.emitShared after kind length name) :=
  .takes pos le

/-- A token that is its own text has to have one. -/
theorem emitText {after : Context} {kind : TokenKind} {name : List Char} (pos : name ≠ [])
    (le : after.enclosing.length ≤ context.enclosing.length + 1) :
    GetsOn context (.emitText after kind name) :=
  .takes (List.length_pos_iff.2 pos) le

/-- A run that is not empty gets on. -/
theorem emitRun {source : List Char} {decoded : Decoded} (pos : source ≠ []) :
    GetsOn context (.emitRun context source decoded) :=
  .takes (List.length_pos_iff.2 pos) (Nat.le_succ _)

/-- A step that takes characters in one mode may change it then. -/
theorem change {step : Step} {change : ModeChange} (pos : 0 < step.length)
    (same : step.context.enclosing = context.enclosing) :
    GetsOn context (step.change change) := by
  refine .takes pos ?_
  rw [← same]
  exact step.context.length_enclosing_change_le change

/-- A step may leave any mode but code, whether it takes characters or not. -/
theorem pop {step : Step} (heavy : 3 ≤ context.mode.weight)
    (mode : step.context.mode = context.mode)
    (same : step.context.enclosing = context.enclosing) : GetsOn context step.pop := by
  rcases Nat.eq_zero_or_pos step.length with zero | pos
  · have weight : step.context.weight = context.weight := by
      rw [Context.weight, Context.weight, mode, same]
    refine .leaves zero ?_
    rw [← weight]
    exact Context.weight_pop_lt (mode ▸ heavy)
  · exact .change pos same

/-- A mode that takes nothing is left, unless that is code. -/
theorem silent (heavy : 3 ≤ context.mode.weight) : GetsOn context (Step.silent context).pop :=
  .pop heavy rfl rfl

/-- Problems make no difference to how a step gets on. -/
theorem report {step : Step} {errors : List LexError} (h : GetsOn context step) :
    GetsOn context (step.report errors) := by
  cases h with
  | takes pos le => exact .takes pos le
  | leaves zero lt => exact .leaves zero lt

end Step.GetsOn

/-! ## Runs of characters -/

/-- A run that has a first character is not empty. -/
theorem takeWhile_ne_nil {p : Char → Bool} {text : List Char} (h : nextIs p text) :
    text.takeWhile p ≠ [] := by
  cases text with
  | nil => simp [nextIs] at h
  | cons c rest => simp_all [nextIs]

/-- What may start a label may also go on with one. -/
theorem nextIs_isLabelPart {text : List Char} (h : nextIs isLabelStart text) :
    nextIs isLabelPart text := by
  cases text <;> simp_all [nextIs, isLabelPart]

/-! ## Markup -/

/-- Opening tags are not empty. -/
theorem Markup.openTagAt?_pos {settings : Settings} {text : List Char} {kind : TokenKind}
    {length : Nat} (h : openTagAt? settings text = some (kind, length)) : 0 < length := by
  unfold openTagAt? at h
  grind

/-- Where no tag begins there is markup. -/
theorem Markup.textLength_pos {settings : Settings} {c : Char} {rest : List Char}
    (h : openTagAt? settings (c :: rest) = none) : 0 < textLength settings (c :: rest) := by
  simp [textLength, h]

/-- Outside of code a tag or the text before the next one is taken. -/
theorem Markup.AtMarkup.getsOn {settings : Settings} {context : Context} {text : List Char}
    {step : Step} (h : AtMarkup settings context text step) (ne : text ≠ []) :
    step.GetsOn context := by
  cases h with
  | tag front => exact .change (openTagAt?_pos front) rfl
  | run noTag =>
    refine .emitText ?_ (Nat.le_succ _)
    obtain ⟨c, rest, rfl⟩ := List.exists_cons_of_ne_nil ne
    have := textLength_pos noTag
    simp
    omega

/-! ## Numbers -/

/-- A number takes its literal, whatever is made of it. -/
theorem Number.Makes.getsOn {context : Context} {literal : List Char} {step : Step}
    (h : Makes context literal step) (ne : literal ≠ []) : step.GetsOn context := by
  have pos := List.length_pos_iff.2 ne
  cases h with
  | word | tooBig | real => exact .takes pos (Nat.le_succ _)

/-- A key takes its digits. -/
theorem Number.MakesKey.getsOn {context : Context} {digits : List Char} {step : Step}
    (h : MakesKey context digits step) (ne : digits ≠ []) : step.GetsOn context := by
  have pos := List.length_pos_iff.2 ne
  cases h with
  | padded | tooBig => exact .emitShared pos (Nat.le_succ _)
  | word => exact .takes pos (Nat.le_succ _)

/-! ## Interpolations -/

/-- An interpolation begins with a dollar sign or a brace, which is taken. -/
theorem Interpolation.AtStart.getsOn {context : Context} {text : List Char} {step : Step}
    (h : AtStart context text step) : step.GetsOn context := by
  have variable_ : 0 < (emitVariable context text).length := Nat.succ_pos _
  cases h with
  | dollarBrace => exact .change Nat.two_pos rfl
  | brace => exact .change Nat.one_pos rfl
  | element | property => exact .change variable_ rfl
  | plain => exact .takes variable_ (Nat.le_succ _)

/-- After an arrow something is taken, or the mode is left. -/
theorem Interpolation.AtProperty.getsOn {context : Context} {text : List Char} {step : Step}
    (h : AtProperty context text step) (mode : context.mode = .property) :
    step.GetsOn context := by
  cases h with
  | blanks blank => exact .emit (List.length_pos_iff.2 (takeWhile_ne_nil blank)) (Nat.le_succ _)
  | arrow | nullsafeArrow => exact .emit (by decide) (Nat.le_succ _)
  | name begins =>
    exact .change (List.length_pos_iff.2 (takeWhile_ne_nil (nextIs_isLabelPart begins))) rfl
  | other => exact .silent (by simp [mode, Mode.weight])

/-- After a dollar sign and a brace the mode is left in any case, for code. -/
theorem Interpolation.AtVariableName.getsOn {context : Context} {text : List Char} {step : Step}
    (h : AtVariableName context text step) (mode : context.mode = .variableName) :
    step.GetsOn context := by
  cases h with
  | name begins =>
    refine .takes (List.length_pos_iff.2 (takeWhile_ne_nil (nextIs_isLabelPart begins))) ?_
    exact Nat.succ_le_succ context.length_enclosing_pop
  | other =>
    -- code weighs nothing, so it may be opened where the mode is left
    refine .leaves rfl ?_
    change (context.pop.push .code).weight < context.weight
    simp only [Context.weight, Context.push, Context.enclosing_pop, mode, Mode.weight,
      List.length_cons, List.length_tail]
    omega

/-- Between brackets something is taken, or the mode is left. -/
theorem Interpolation.AtOffset.getsOn {context : Context} {text : List Char} {step : Step}
    (h : AtOffset context text step) (mode : context.mode = .offset) : step.GetsOn context := by
  cases h with
  | bracket | minus => exact .emit (by decide) (Nat.le_succ _)
  | closing => exact .change Nat.one_pos rfl
  | dollar => exact .emitShared (Nat.succ_pos _) (Nat.le_succ _)
  | number first makes => exact makes.getsOn (takeWhile_ne_nil first)
  | name begins =>
    exact .emitShared (List.length_pos_iff.2 (takeWhile_ne_nil (nextIs_isLabelPart begins)))
      (Nat.le_succ _)
  | other => exact .silent (by simp [mode, Mode.weight])

/-! ## Strings -/

/-- A quote is taken, with the whole literal or alone. -/
theorem Quoted.AtQuote.getsOn {settings : Settings} {context : Context} {text : List Char}
    {before : Nat} {step : Step} (h : AtQuote settings context text before step)
    (ne : text ≠ []) : step.GetsOn context := by
  cases h with
  | closed => exact .takes (List.length_pos_iff.2 (by simp [ne])) (Nat.le_succ _)
  | single | double => exact .change (Nat.succ_pos _) rfl

/-- A run has a character if neither the closing quote nor an interpolation is in front. -/
theorem Quoted.runLength_pos {quote c : Char} {interpolates : Bool} {rest : List Char}
    (h₁ : c ≠ quote) (h₂ : (interpolates && Interpolation.startsAt (c :: rest)) = false) :
    0 < runLength quote interpolates (c :: rest) := by
  unfold runLength
  split
  · contradiction
  · split <;> omega
  · rename_i heq
    obtain ⟨rfl, rfl⟩ := List.cons.inj heq
    simp [h₁, h₂]

/-- A run of text stops before something only if it has taken something. -/
theorem Quoted.run_ne_nil {quote : Char} {interpolates : Bool} {text : List Char}
    (ne : text ≠ []) (noQuote : nextIs (· == quote) text = false)
    (noStart : (interpolates && Interpolation.startsAt text) = false) :
    text.take (runLength quote interpolates text) ≠ [] := by
  obtain ⟨c, rest, rfl⟩ := List.exists_cons_of_ne_nil ne
  have pos : 0 < runLength quote interpolates (c :: rest) :=
    runLength_pos (beq_eq_false_iff_ne.1 noQuote) noStart
  simp only [ne_eq, List.take_eq_nil_iff, reduceCtorEq, or_false]
  omega

/-- In a string the quote, an interpolation or a run is taken. -/
theorem Quoted.InQuotes.getsOn {settings : Settings} {context : Context} {quote : Char}
    {kind : TokenKind} {mode : EscapeMode} {interpolates : Bool} {text : List Char} {step : Step}
    (h : InQuotes settings context quote kind mode interpolates text step) (ne : text ≠ []) :
    step.GetsOn context := by
  cases h with
  | closing => exact .change Nat.one_pos rfl
  | interpolation _ _ front => exact front.getsOn
  | run noQuote noStart => exact .emitRun (run_ne_nil ne noQuote noStart)

/-! ## Heredocs -/

theorem HeredocBody.openingStep?_getsOn {context : Context} {text : List Char} {before : Nat}
    {step : Step} (h : openingStep? context text before = some step) : step.GetsOn context := by
  simp only [openingStep?, Option.map_eq_some_iff] at h
  obtain ⟨opening, -, rfl⟩ := h
  have pos : 0 < before + 3 + opening.length := by omega
  exact .change pos rfl

/-- The last fragment of a body may be empty. The mode that follows weighs less than the body. -/
theorem HeredocBody.closeStep_getsOn (settings : Settings) {context : Context}
    (isNowdoc lineStart : Bool) (source : List Char) (h : 4 ≤ context.mode.weight) :
    (closeStep settings context isNowdoc lineStart source).GetsOn context := by
  have lower : (context.enter .closingLabel).weight < context.weight := by
    have : (context.enter .closingLabel).mode.weight = 3 := rfl
    simp only [Context.weight, Context.enclosing_enter, this]
    omega
  have le : (context.enter .closingLabel).enclosing.length ≤ context.enclosing.length + 1 :=
    Nat.le_succ _
  have either : 0 < source.length ∨ source.length = 0 := by omega
  have gets_on (step : Step) (length : step.length = source.length)
      (same : step.context = context.enter .closingLabel) : step.GetsOn context := by
    rcases either with pos | zero
    · exact .takes (by rw [length]; exact pos) (by rw [same]; exact le)
    · exact .leaves (by rw [length]; exact zero) (by rw [same]; exact lower)
  rw [closeStep]
  dsimp only
  split <;> dsimp only <;> split <;> exact gets_on _ rfl rfl

/-- In the body of a heredoc a fragment is taken, or the closing label is reached. -/
theorem HeredocBody.heredocStep_getsOn (settings : Settings) {context : Context}
    (lineStart : Bool) {text : List Char} (h : context.mode = .heredoc) (ne : text ≠ []) :
    (heredocStep settings context lineStart text).GetsOn context := by
  have weight : 4 ≤ context.mode.weight := by simp [h, Mode.weight]
  rw [heredocStep]
  split
  · exact .silent (by omega)
  · split
    · exact closeStep_getsOn settings false lineStart _ weight
    · split
      · exact (Interpolation.atStart context text).getsOn
      · rename_i pos
        refine .takes ?_ (Nat.le_succ _)
        have := List.length_pos_iff.2 ne
        simp [fragmentStep, Step.emitRun]
        omega
    · exact .emitRun ne

theorem HeredocBody.nowdocStep_getsOn (settings : Settings) {context : Context}
    (lineStart : Bool) {text : List Char} (h : context.mode = .nowdoc) (ne : text ≠ []) :
    (nowdocStep settings context lineStart text).GetsOn context := by
  have weight : 4 ≤ context.mode.weight := by simp [h, Mode.weight]
  rw [nowdocStep]
  split
  · exact .silent (by omega)
  · split
    · exact closeStep_getsOn settings true lineStart _ weight
    · exact .emitRun ne

/-- The closing label is left behind, also where it takes nothing. -/
theorem HeredocBody.AtClosing.getsOn {context : Context} {text : List Char} {step : Step}
    (h : AtClosing context text step) (mode : context.mode = .closingLabel) :
    step.GetsOn context := by
  have heavy : 3 ≤ context.mode.weight := by simp [mode, Mode.weight]
  cases h with
  | gone | label => exact .pop heavy rfl rfl

/-! ## Code -/

/-- No operator is spelled without characters. -/
theorem Mark.at?_pos {text : List Char} {length : Nat} {mark : Mark}
    (h : Mark.at? text = some (length, mark)) : 0 < length := by
  obtain ⟨spelling, mem, h⟩ := List.exists_of_findSome?_eq_some h
  have : ∀ entry ∈ spellings, 0 < entry.1.length := by decide
  have := this _ mem
  grind

/-- An operator opens one mode at most. -/
theorem Code.enclosing_afterMark (step : Step) (mark : Mark) :
    (afterMark step mark).context.enclosing.length ≤ step.context.enclosing.length + 1 := by
  have changed (step : Step) (change : ModeChange) :=
    step.context.length_enclosing_change_le change
  unfold afterMark
  split
  · exact changed step.dropDoc _
  · dsimp only
    split
    · exact Nat.le_succ _
    · exact changed step.dropDoc _
  · exact Nat.le_succ _
  · exact changed step _
  · exact changed step _
  · exact Nat.le_succ _

theorem Code.AtMark.getsOn {context : Context} {text : List Char} {step : Step}
    (h : AtMark context text step) : step.GetsOn context := by
  cases h with
  | @mark length mark front =>
    refine .takes ?_ (enclosing_afterMark _ mark)
    rw [length_afterMark]
    exact Mark.at?_pos front
  | bad => exact .report (.emit (by decide) (Nat.le_succ _))

/-- A name has at least the character that it begins with. -/
theorem Code.AtName.getsOn {context : Context} {text : List Char} {step : Step}
    (h : AtName context text step) (front : nextIs isLabelStart text) : step.GetsOn context := by
  have ne := takeWhile_ne_nil (nextIs_isLabelPart front)
  cases h with
  | word => exact .emitShared (List.length_pos_iff.2 ne) (Nat.le_succ _)
  | yieldFrom pos =>
    have some : text ≠ [] := by
      rintro rfl
      cases front
    refine .takes (List.length_pos_iff.2 ?_) (Nat.le_succ _)
    simp only [ne_eq, List.take_eq_nil_iff, some, or_false]
    omega

theorem Code.AtBlockComment.getsOn {context : Context} {start : Nat} {text : List Char}
    {step : Step} (h : AtBlockComment context start text step) : step.GetsOn context := by
  cases h with
  | plain _ ne | doc _ ne => exact .takes (List.length_pos_iff.2 ne) (Nat.le_succ _)

theorem Code.castAt?_pos {text : List Char} {type : CastType} {length : Nat}
    (h : castAt? text = some (type, length)) : 0 < length := by
  unfold castAt? at h
  dsimp only at h
  split at h
  · simp only [Option.map_eq_some_iff, Prod.mk.injEq] at h
    obtain ⟨_, -, -, rfl⟩ := h
    omega
  · contradiction

/-- A comment begins with a number sign or with two slashes. -/
theorem Code.lineCommentLength_pos {text : List Char}
    (front : ['#'] <+: text ∨ ['/', '/'] <+: text) : 0 < lineCommentLength text := by
  obtain ⟨rest, rfl⟩ | ⟨rest, rfl⟩ := front
  · simp [lineCommentLength]
  · simp [lineCommentLength]

/-- Every step in code takes characters. -/
theorem Code.AtCode.getsOn {settings : Settings} {context : Context} {start : Nat}
    {text : List Char} {step : Step} (h : AtCode settings context start text step)
    (ne : text ≠ []) : step.GetsOn context := by
  cases h with
  | attributeOpen | separator => exact .emit (by decide) (Nat.le_succ _)
  | lineComment front =>
    refine .emitText ?_ (Nat.le_succ _)
    have pos := lineCommentLength_pos front
    simp only [ne_eq, List.take_eq_nil_iff, ne, or_false]
    omega
  | blockComment comment => exact comment.getsOn
  | closeTag => exact .change (Nat.lt_of_lt_of_le Nat.two_pos (Nat.le_add_right _ _)) rfl
  | quote _ quoted => exact quoted.getsOn ne
  | backquote => exact .change Nat.one_pos rfl
  | cast front => exact .emit (castAt?_pos front) (Nat.le_succ _)
  | heredoc front opening => exact HeredocBody.openingStep?_getsOn opening
  | whitespace front =>
    exact .emit (List.length_pos_iff.2 (takeWhile_ne_nil front)) (Nat.le_succ _)
  | dollar => exact .emitShared (Nat.succ_pos _) (Nat.le_succ _)
  | number front =>
    obtain ⟨literal, ne, -, makes⟩ := Number.exists_makes context front
    exact makes.getsOn ne
  | name front named => exact named.getsOn front
  | mark marked => exact marked.getsOn

/-! ## Lexers -/

namespace Lexer

/-- A bound on what a lexer still has to do. -/
def work (lexer : Lexer) : Nat := 8 * lexer.rest.length + lexer.context.weight

/-- In every mode a step gets on, as long as there is something left. -/
theorem step_getsOn {lexer : Lexer} (h : lexer.rest ≠ []) :
    lexer.step.GetsOn lexer.context := by
  rw [step_eq h]
  cases mode : lexer.context.mode with
  | markup => exact (Markup.atMarkup ..).getsOn h
  | code => exact (Code.atCode _ _ _ h).getsOn h
  | doubleQuoted | backquoted => exact (Quoted.inInterpolated ..).getsOn h
  | singleQuoted => exact (Quoted.inSingleQuoted ..).getsOn h
  | heredoc => exact HeredocBody.heredocStep_getsOn _ _ mode h
  | nowdoc => exact HeredocBody.nowdocStep_getsOn _ _ mode h
  | closingLabel => exact (HeredocBody.atClosing ..).getsOn mode
  | property => exact (Interpolation.atProperty ..).getsOn mode
  | variableName => exact (Interpolation.atVariableName ..).getsOn mode
  | offset => exact (Interpolation.atOffset ..).getsOn mode

/-- A step lowers the work, as long as something is left of the source. -/
theorem work_advance_lt {lexer : Lexer} (h : lexer.rest ≠ []) :
    lexer.advance.work < lexer.work := by
  have length := List.length_pos_iff.2 h
  have mode := lexer.step.context.mode.weight_le
  cases step_getsOn h with
  | takes pos le =>
    simp only [work, advance, take, List.length_drop, Context.weight] at *
    omega
  | leaves zero lt =>
    simp only [work, advance, take, List.length_drop] at *
    omega

end Lexer

end PhpFrontEnd
