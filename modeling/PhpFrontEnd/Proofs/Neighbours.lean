import PhpFrontEnd.Proofs.Modes
import PhpFrontEnd.Proofs.NumberTokens

/-!
# Neighbouring tokens

What comes after a token depends on what the step at it leaves in front of the lexer and on the mode
that it leaves the lexer in. So to say which tokens stand next to one another in a scan, one goes
back to the lexer that makes a token: it is on the way of the scan, and the tokens after it are
those of the lexer one step further on (`Lexer.exists_maker`).

Of the modes, some are never returned to (`Mode.IsPassing`). A lexer in one of them has stayed there
or has just opened it (`Lexer.arrives`), so what the opening looks ahead for is still to come.

In code two kinds of tokens tell something about the text. White space is read where a blank is
next, and a single quote is a token of its own only if the string is not closed
(`Code.AtCode.tells`).
-/

namespace PhpFrontEnd

namespace Lexer

variable {lexer : Lexer} {kind : TokenKind} {value : TokenValue}

/-! ## Steps in a mode -/

/-- What a step takes in markup. -/
theorem step_in_markup (mode : lexer.context.mode = .markup) (ne : lexer.rest ≠ []) :
    Markup.AtMarkup lexer.settings lexer.context lexer.rest lexer.step := by
  rw [step_eq ne, mode]
  exact Markup.atMarkup ..

/-- What a step takes in code. -/
theorem step_in_code (mode : lexer.context.mode = .code) (ne : lexer.rest ≠ []) :
    Code.AtCode lexer.settings lexer.context lexer.offset lexer.rest lexer.step := by
  rw [step_eq ne, mode]
  exact Code.atCode _ _ _ ne

/-- What a step takes in double quotes. -/
theorem step_in_doubleQuoted (mode : lexer.context.mode = .doubleQuoted) (ne : lexer.rest ≠ []) :
    Quoted.InQuotes lexer.settings lexer.context '"' .doubleQuote .double true lexer.rest
      lexer.step := by
  rw [step_eq ne, mode]
  exact Quoted.inInterpolated ..

/-- What a step takes in backquotes, where everything is as in double quotes. -/
theorem step_in_backquoted (mode : lexer.context.mode = .backquoted) (ne : lexer.rest ≠ []) :
    Quoted.InQuotes lexer.settings lexer.context '\x60' .backquote .backquote true lexer.rest
      lexer.step := by
  rw [step_eq ne, mode]
  exact Quoted.inInterpolated ..

/-- What a step takes in single quotes. -/
theorem step_in_singleQuoted (mode : lexer.context.mode = .singleQuoted) (ne : lexer.rest ≠ []) :
    Quoted.InQuotes lexer.settings lexer.context '\x27' .singleQuote .single false lexer.rest
      lexer.step := by
  rw [step_eq ne, mode]
  exact Quoted.inSingleQuoted ..

/-- What a step takes in the body of a heredoc or a nowdoc. -/
theorem step_in_body (isNowdoc : Bool)
    (mode : lexer.context.mode = if isNowdoc then .nowdoc else .heredoc) (ne : lexer.rest ≠ []) :
    HeredocBody.AtBody lexer.settings lexer.context lexer.lineStart lexer.rest isNowdoc
      lexer.step := by
  rw [step_eq ne, mode]
  cases isNowdoc with
  | false => exact HeredocBody.atBody_heredoc
  | true => exact HeredocBody.atBody_nowdoc

/-- What a step takes at a closing label. -/
theorem step_in_closingLabel (mode : lexer.context.mode = .closingLabel) (ne : lexer.rest ≠ []) :
    HeredocBody.AtClosing lexer.context lexer.rest lexer.step := by
  rw [step_eq ne, mode]
  exact HeredocBody.atClosing ..

/-- What a step takes after an arrow in a string. -/
theorem step_in_property (mode : lexer.context.mode = .property) (ne : lexer.rest ≠ []) :
    Interpolation.AtProperty lexer.context lexer.rest lexer.step := by
  rw [step_eq ne, mode]
  exact Interpolation.atProperty ..

/-- What a step takes between brackets in a string. -/
theorem step_in_offset (mode : lexer.context.mode = .offset) (ne : lexer.rest ≠ []) :
    Interpolation.AtOffset lexer.context lexer.rest lexer.step := by
  rw [step_eq ne, mode]
  exact Interpolation.atOffset ..

/-! ## Lexers on the way of a scan -/

/-- A token of a scan is made by a lexer on the way, which goes on with the tokens that come after
it. What every step preserves holds of that lexer. -/
theorem exists_maker {motive : Lexer → Prop}
    (step : ∀ lexer, lexer.rest ≠ [] → motive lexer → motive lexer.advance) (h : motive lexer)
    {front back : List Token} {token : Token}
    (tokens : lexer.scan.tokens = front ++ token :: back) (notEnd : token.kind ≠ .endOfSource) :
    ∃ maker : Lexer, motive maker ∧ maker.rest ≠ [] ∧
      maker.step.token = some (token.kind, token.value) ∧ maker.span = token.span ∧
      maker.advance.scan.tokens = back := by
  induction lexer using step_induction generalizing front with
  | nil lexer nil =>
    rw [scan_of_nil nil] at tokens
    rcases front with _ | ⟨first, front⟩
    · obtain ⟨rfl, -⟩ := List.cons.inj tokens
      exact absurd rfl notEnd
    · exact absurd (List.cons.inj tokens).2 (by simp)
  | step lexer ne ih =>
    rcases made : lexer.step.token with _ | ⟨kind, value⟩
    · rw [scan_of_silent made] at tokens
      exact ih (step lexer ne h) tokens
    · rw [scan_of_token made ((step_move ne).ne_endOfSource made)] at tokens
      rcases front with _ | ⟨first, front⟩
      · obtain ⟨rfl, rfl⟩ := List.cons.inj tokens
        exact ⟨lexer, h, ne, made, rfl, rfl⟩
      · exact ih (step lexer ne h) (List.cons.inj tokens).2

/-- That lexer is at its place in the source. -/
theorem exists_maker_within {motive : Lexer → Prop} {settings : Settings} {source : List Char}
    {shift : Nat} {context : Context}
    (step : ∀ lexer, lexer.rest ≠ [] → motive lexer → motive lexer.advance)
    (h : motive (start settings source shift context)) {front back : List Token} {token : Token}
    (tokens : (start settings source shift context).scan.tokens = front ++ token :: back)
    (notEnd : token.kind ≠ .endOfSource) :
    ∃ maker : Lexer, motive maker ∧ maker.Within settings source shift ∧ maker.rest ≠ [] ∧
      maker.step.token = some (token.kind, token.value) ∧ maker.span = token.span ∧
      maker.advance.scan.tokens = back := by
  have kept (lexer : Lexer) (ne : lexer.rest ≠ [])
      (h : motive lexer ∧ lexer.Within settings source shift) :
      motive lexer.advance ∧ lexer.advance.Within settings source shift :=
    ⟨step lexer ne h.1, h.2.advance⟩
  obtain ⟨maker, ⟨held, within⟩, ne, made, span, later⟩ :=
    exists_maker kept ⟨h, within_start context⟩ tokens notEnd
  exact ⟨maker, held, within, ne, made, span, later⟩

/-- The token of a step comes in front of those of the lexer one step further on. -/
theorem scan_tokens_of_token (h : lexer.step.token = some (kind, value))
    (notEnd : kind ≠ .endOfSource) :
    lexer.scan.tokens = ⟨kind, lexer.span, value⟩ :: lexer.advance.scan.tokens :=
  congrArg Scan.tokens (scan_of_token h notEnd)

/-- The next call gives the token of the step, if it has one. -/
theorem next_kind_of_token (h : lexer.step.token = some (kind, value)) :
    lexer.next.token.kind = kind := by
  rw [next_of_token h]

/-- Otherwise it gives what the lexer one step further on would. -/
theorem next_token_of_silent (h : lexer.step.token = none) :
    lexer.next.token = lexer.advance.next.token := by
  rw [next_of_silent h]

theorem next_kind_of_nil (h : lexer.rest = []) : lexer.next.token.kind = .endOfSource :=
  next_kind_of_token (step_token_of_rest_eq_nil h)

end Lexer

/-! ## Modes that are not returned to -/

/-- Modes that are never returned to after they have been left: single quotes, where nothing else is
opened, and the name after an arrow. -/
def Mode.IsPassing (mode : Mode) : Prop := mode = .singleQuoted ∨ mode = .property

/-- None of the modes that are returned to is passing. -/
theorem Mode.IsPassing.not_returned {mode : Mode} (h : mode.IsPassing) :
    mode ≠ .code ∧ mode ≠ .markup ∧ mode ≠ .closingLabel ∧ ¬mode.interpolates ∧ ¬mode.isBody := by
  rcases h with rfl | rfl <;> decide

/-- Leaving a mode returns to code or to a string that interpolates. -/
theorem Context.WellNested.not_isPassing_pop {context : Context} (h : context.WellNested) :
    ¬context.pop.mode.IsPassing := by
  intro passing
  obtain ⟨notCode, -, -, notString, -⟩ := passing.not_returned
  rcases context.mode_pop with code | mem
  · exact notCode code
  · exact (h.returns _ mem).elim notCode notString

/-- How a lexer comes to be in a mode that is not returned to. -/
inductive Lexer.Arrives (lexer : Lexer) (mode : Mode) : Prop where
  | stays {kind : TokenKind} {value : TokenValue}
      (token : lexer.step.token = some (kind, value)) (same : lexer.context.mode = mode)
      (reads : mode.reads kind) (enclosing : lexer.step.context.enclosing = lexer.context.enclosing)
  | opens {kind : TokenKind} {value : TokenValue}
      (token : lexer.step.token = some (kind, value)) (opens : lexer.context.mode.opens kind mode)
      (enclosing : lexer.step.context.enclosing = lexer.context.mode :: lexer.context.enclosing)

/-- A mode that no token enters in place of another, and that leaving the present one does not
return to, has been in force or was opened. -/
theorem Lexer.arrives_of_ne_pop {lexer : Lexer} (ne : lexer.rest ≠ []) {mode : Mode}
    (own : mode ≠ .code ∧ mode ≠ .markup ∧ mode ≠ .closingLabel ∧ ¬mode.isBody)
    (popped : lexer.context.pop.mode ≠ mode) (after : lexer.step.context.mode = mode) :
    lexer.Arrives mode := by
  obtain ⟨notCode, notMarkup, notLabel, notBody⟩ := own
  subst after
  cases step_move ne with
  | @token kind value token pos le turn =>
    obtain ⟨context, same⟩ : ∃ context, lexer.step.context = context := ⟨_, rfl⟩
    obtain ⟨changes, made⟩ : ∃ changes, lexer.step.changes = changes := ⟨_, rfl⟩
    rw [made, same] at turn
    rw [same] at popped notCode notMarkup ⊢
    cases turn with
    | stays doc h => exact .stays token rfl h (by rw [same])
    | enters h => exact absurd (Mode.plain_of_enters h).2 (not_or.2 ⟨notMarkup, notCode⟩)
    | opens doc h => exact .opens token h (by rw [same]; rfl)
    | closes doc =>
      refine absurd ?_ popped
      unfold Context.pop
      dsimp only
      split <;> rfl
    | unmatched doc code => exact absurd code notCode
    | names => exact absurd rfl notCode
  | @opensBody label mode code body ne token pos le same =>
    rw [same] at notBody
    exact absurd body notBody
  | reachesLabel body held le front indent token same =>
    rw [same] at notLabel
    exact absurd rfl notLabel
  | closesBody mode token le length same =>
    rw [same] at popped
    exact absurd rfl popped
  | leaves free token zero same =>
    rw [same] at popped
    exact absurd rfl popped
  | looksOn mode token zero same =>
    rw [same] at notCode
    exact absurd rfl notCode

/-- A lexer that comes to a passing mode was in it, or has just opened it. -/
theorem Lexer.arrives {lexer : Lexer} (nested : lexer.context.WellNested) (ne : lexer.rest ≠ [])
    {mode : Mode} (passing : mode.IsPassing) (after : lexer.step.context.mode = mode) :
    lexer.Arrives mode := by
  obtain ⟨notCode, notMarkup, notLabel, -, notBody⟩ := passing.not_returned
  refine arrives_of_ne_pop ne ⟨notCode, notMarkup, notLabel, notBody⟩ (fun popped => ?_) after
  exact nested.not_isPassing_pop (popped ▸ passing)

/-! ## What tokens in code tell -/

/-- What white space and single quotes tell about the text that they are read from. -/
structure Step.Tells (text : List Char) (step : Step) : Prop where
  blank : ∀ value, step.token = some (.whitespace, value) → nextIs isBlank text
  /-- a string that is closed is a token as a whole -/
  quote : ∀ value, step.token = some (.singleQuote, value) →
    Quoted.closingLength? '\x27' false (text.drop step.length) = none

/-- Any other token tells nothing. -/
theorem Step.tells_of_token {text : List Char} {step : Step} {kind : TokenKind}
    {value : TokenValue} (token : step.token = some (kind, value))
    (other : kind ∉ [.whitespace, .singleQuote]) : step.Tells text := by
  simp only [List.mem_cons, List.not_mem_nil, or_false, not_or] at other
  refine ⟨fun value blank => ?_, fun value quote => ?_⟩
  · exact absurd (Step.token_inj token blank).1 other.1
  · exact absurd (Step.token_inj token quote).1 other.2

theorem Step.tells_of_blank {text : List Char} {step : Step} {value : TokenValue}
    (token : step.token = some (.whitespace, value)) (blank : nextIs isBlank text) :
    step.Tells text := by
  refine ⟨fun _ _ => blank, fun value quote => ?_⟩
  cases (Step.token_inj token quote).1

/-- A single quote tells that no other one closes the string. -/
theorem Step.tells_of_quote {text : List Char} {step : Step} {value : TokenValue}
    (token : step.token = some (.singleQuote, value))
    (unclosed : Quoted.closingLength? '\x27' false (text.drop step.length) = none) :
    step.Tells text := by
  refine ⟨fun value blank => ?_, fun _ _ => unclosed⟩
  cases (Step.token_inj token blank).1

namespace Code

variable {settings : Settings} {context : Context} {text : List Char} {start before : Nat}

/-- White space begins with a blank, and a single quote opens a string that is not closed. -/
theorem AtCode.tells {step : Step} (h : AtCode settings context start text step) :
    step.Tells text := by
  cases h with
  | attributeOpen | lineComment | closeTag | separator | backquote | cast | dollar =>
    exact Step.tells_of_token rfl (by simp)
  | blockComment comment =>
    cases comment with
    | plain | doc => exact Step.tells_of_token rfl (by simp)
  | quote _ quoted =>
    cases quoted with
    | closed | double => exact Step.tells_of_token rfl (by simp)
    | single unclosed => exact Step.tells_of_quote rfl unclosed
  | heredoc _ opening =>
    obtain ⟨label, -, rfl⟩ := Option.map_eq_some_iff.1 opening
    exact Step.tells_of_token rfl (by simp)
  | whitespace front => exact Step.tells_of_blank rfl front
  | number front =>
    obtain ⟨literal, -, -, makes⟩ := Number.exists_makes context front
    obtain ⟨kind, value, token, isNumber⟩ := makes.exists_token
    refine Step.tells_of_token token fun other => ?_
    simp only [List.mem_cons, List.not_mem_nil, or_false] at isNumber other
    rcases isNumber with rfl | rfl | rfl <;> simp at other
  | name _ named =>
    cases named with
    | word isWord =>
      refine Step.tells_of_token rfl ?_
      obtain rfl | ⟨keyword, rfl⟩ := isWord <;> simp
    | yieldFrom => exact Step.tells_of_token rfl (by simp)
  | mark marked =>
    cases marked with
    | mark => exact Step.tells_of_token (token_afterMark ..) (by simp)
    | bad => exact Step.tells_of_token rfl (by simp)

end Code

end PhpFrontEnd
