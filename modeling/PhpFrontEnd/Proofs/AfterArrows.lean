import PhpFrontEnd.Proofs.Neighbours

/-!
# Names after arrows

After an arrow a lexer is in a mode of its own, whether the arrow stands in code or behind a
variable in a string. In that mode blanks and further arrows are passed over and a label is a name,
whatever word it is. Anything else leaves the mode, and then the place of a name is taken by a token
that does not begin like one (`Lexer.AfterArrow.first`).

Leaving the mode could lead into a string, where the indentation of a closing label is passed over
without a token and the label comes next. It does not: in a string the mode is entered only in front
of an arrow with a label behind it, without blanks between, so there is nothing to leave it for
(`Lexer.AfterArrow.ahead`).
-/

namespace PhpFrontEnd

/-! ## Steps at arrows -/

namespace Interpolation

variable {context : Context} {text : List Char}

/-- Neither an arrow nor a label begins with a blank. -/
theorem not_isBlank_of_ahead (h : arrowAt text ∨ nextIs isLabelStart text) :
    nextIs isBlank text = false := by
  rcases h with arrow | label
  · unfold arrowAt at arrow
    split at arrow
    · rfl
    · rfl
    · cases arrow
  · rcases text with _ | ⟨c, rest⟩
    · cases label
    · exact Heredoc.not_isBlank_of_isLabelPart (Bool.or_eq_true_iff.2 (.inl label))

/-- What is left behind a dollar sign and the label after it. -/
theorem drop_emitVariable (context : Context) (text : List Char) :
    text.drop (emitVariable context text).length = (text.drop 1).dropWhile isLabelPart := by
  change text.drop (((text.drop 1).takeWhile isLabelPart).length + 1) = _
  rw [Nat.add_comm, ← List.drop_drop, drop_length_takeWhile]

/-- A variable leads to a mode of its own only if a bracket is there, or an arrow with a label
behind. -/
theorem AtStart.ahead {step : Step} {value : TokenValue} (h : AtStart context text step)
    (interpolates : context.mode.interpolates)
    (token : step.token = some (.variable, value)) :
    (step.context.mode = .offset → nextIs (· == '[') (text.drop step.length)) ∧
      (step.context.mode = .property → arrowAt (text.drop step.length)) := by
  cases h with
  | dollarBrace | brace => cases token
  | element _ bracket =>
    refine ⟨fun _ => ?_, nofun⟩
    rw [Step.length_change, drop_emitVariable]
    exact bracket
  | property _ arrow =>
    refine ⟨nofun, fun _ => ?_⟩
    rw [Step.length_change, drop_emitVariable]
    exact arrow
  | plain =>
    refine ⟨fun mode => ?_, fun mode => ?_⟩ <;>
    · rw [show context.mode = _ from mode] at interpolates
      cases interpolates

end Interpolation

/-- In quotes a variable is read only where an interpolation begins. -/
theorem Quoted.InQuotes.variable {settings : Settings} {context : Context} {quote : Char}
    {kind : TokenKind} {mode : EscapeMode} {interpolates : Bool} {text : List Char} {step : Step}
    {value : TokenValue} (h : InQuotes settings context quote kind mode interpolates text step)
    (other : kind ≠ .variable) (token : step.token = some (.variable, value)) :
    Interpolation.AtStart context text step := by
  cases h with
  | closing => exact absurd (Step.token_inj rfl token).1 other
  | interpolation _ _ front => exact front
  | run => cases token

/-- So it is in the body of a heredoc. -/
theorem HeredocBody.AtBody.variable {settings : Settings} {context : Context}
    {lineStart isNowdoc : Bool} {text : List Char} {step : Step} {value : TokenValue}
    (h : AtBody settings context lineStart text isNowdoc step)
    (token : step.token = some (.variable, value)) : Interpolation.AtStart context text step := by
  cases h with
  | unlabelled => cases token
  | closes =>
    rw [closeStep_eq] at token
    dsimp only at token
    split at token
    · cases token
    · cases token
  | interpolates => exact Interpolation.atStart ..
  | fragment => cases token
  | source => cases token

/-! ## Lexers -/

/-- What a scan from the beginning of a source keeps to: its modes are nested, and after an arrow it
is in code, or what is looked for is there. -/
structure Lexer.KeepsArrows (lexer : Lexer) : Prop where
  nested : lexer.context.WellNested
  ahead : lexer.context.mode = .property → lexer.context.enclosing.head? = some .code ∨
    Interpolation.arrowAt lexer.rest ∨ nextIs isLabelStart lexer.rest

namespace Lexer

variable {lexer : Lexer} {kind : TokenKind} {value : TokenValue}

/-- In a string variables are read where an interpolation begins. -/
theorem step_of_variable (interpolates : lexer.context.mode.interpolates) (ne : lexer.rest ≠ [])
    (token : lexer.step.token = some (.variable, value)) :
    Interpolation.AtStart lexer.context lexer.rest lexer.step := by
  rcases mode : lexer.context.mode <;> rw [mode] at interpolates
  case markup | code | singleQuoted | nowdoc | closingLabel | property | variableName | offset =>
    cases interpolates
  case doubleQuoted => exact (step_in_doubleQuoted mode ne).variable (by decide) token
  case backquoted => exact (step_in_backquoted mode ne).variable (by decide) token
  case heredoc => exact (step_in_body false mode ne).variable token

theorem KeepsArrows.start (settings : Settings) (source : List Char) (shift : Nat) {mode : Mode}
    (h : mode = .markup ∨ mode = .code) :
    (Lexer.start settings source shift { mode }).KeepsArrows := by
  refine ⟨.start h, fun property => ?_⟩
  change mode = .property at property
  rw [property] at h
  rcases h with h | h <;> cases h

theorem KeepsArrows.advance (ne : lexer.rest ≠ []) (h : lexer.KeepsArrows) :
    lexer.advance.KeepsArrows := by
  refine ⟨wellNested_advance h.nested, fun mode => ?_⟩
  change lexer.step.context.enclosing.head? = some .code ∨
    Interpolation.arrowAt (lexer.rest.drop lexer.step.length) ∨
      nextIs isLabelStart (lexer.rest.drop lexer.step.length)
  cases arrives h.nested ne (.inr rfl) mode with
  | @stays kind value token same reads enclosing =>
    rw [enclosing]
    refine (h.ahead same).imp_right fun ahead => ?_
    have step := step_in_property same ne
    generalize lexer.step = step at token step
    generalize lexer.rest = text at ahead step
    cases step with
    | blanks blank =>
      rw [Interpolation.not_isBlank_of_ahead ahead] at blank
      cases blank
    | arrow front | nullsafeArrow front =>
      obtain ⟨rest, rfl⟩ := front
      refine .inr (ahead.elim (fun arrow => arrow) fun label => ?_)
      cases label
    | name begins =>
      obtain ⟨rfl, -⟩ := Step.token_inj rfl token
      cases reads
    | other => cases token
  | @opens kind value token opens enclosing =>
    rw [enclosing]
    obtain ⟨code, -⟩ | ⟨interpolates, mem⟩ := Mode.opener opens
    · exact .inl (congrArg some code)
    · obtain rfl : kind = .variable := by simpa [Mode.openedInString] using mem
      have step := step_of_variable interpolates ne token
      exact .inr (.inl ((step.ahead interpolates token).2 mode))

/-! ### What comes after an arrow -/

/-- A lexer after an arrow, or after further arrows and blanks. -/
structure AfterArrow (lexer : Lexer) : Prop where
  keeps : lexer.KeepsArrows
  mode : lexer.context.mode = .property

/-- What the next token is after an arrow: blanks, after which the same is said, a name, or
something that neither is a blank nor begins like a name. -/
inductive Meets (lexer : Lexer) (first : Token) (later : List Token) : Prop where
  | blanks (kind : first.kind = .whitespace)
      (noName : nextIs isLabelStart (lexer.rest.take first.span.length) = false)
      (goesOn : lexer.advance.AfterArrow) (tokens : lexer.advance.scan.tokens = later)
  | name (kind : first.kind = .identifier)
      (whole : lexer.rest.take first.span.length = lexer.rest.takeWhile isLabelPart)
  | other (kind : first.kind ≠ .whitespace)
      (noName : nextIs isLabelStart (lexer.rest.take first.span.length) = false)

/-- In code something is taken at every step. -/
theorem exists_token_of_code (code : lexer.context.mode = .code) (ne : lexer.rest ≠ []) :
    ∃ kind value, lexer.step.token = some (kind, value) ∧ 0 < lexer.step.length := by
  cases step_move ne with
  | token token pos => exact ⟨_, _, token, pos⟩
  | opensBody _ _ _ token pos => exact ⟨_, _, token, pos⟩
  | reachesLabel body =>
    rw [code] at body
    cases body
  | closesBody mode | looksOn mode =>
    rw [code] at mode
    cases mode
  | leaves free => simp [code, Mode.isBody] at free

/-- In code a token without a blank in front is no white space, and begins as the text does. -/
theorem first_in_code {first : Token} {later : List Token} (code : lexer.context.mode = .code)
    (ne : lexer.rest ≠ []) (noBlank : nextIs isBlank lexer.rest = false)
    (tokens : lexer.scan.tokens = first :: later) :
    first.span.start = lexer.offset ∧ first.kind ≠ .whitespace ∧
      nextIs isLabelStart (lexer.rest.take first.span.length) = nextIs isLabelStart lexer.rest := by
  obtain ⟨kind, value, token, pos⟩ := exists_token_of_code code ne
  rw [scan_tokens_of_token token ((step_move ne).ne_endOfSource token)] at tokens
  obtain ⟨rfl, -⟩ := List.cons.inj tokens
  refine ⟨rfl, ?_, Number.nextIs_take pos⟩
  rintro rfl
  rw [(step_in_code code ne).tells.blank value token] at noBlank
  cases noBlank

/-- Where neither an arrow nor a name is next, nothing is taken, and code goes on. -/
theorem AfterArrow.leaves (h : lexer.AfterArrow)
    (left : lexer.step = (Step.silent lexer.context).pop)
    (noArrow : ¬Interpolation.arrowAt lexer.rest)
    (noLabel : nextIs isLabelStart lexer.rest = false) :
    lexer.advance.context.mode = .code ∧ lexer.advance.rest = lexer.rest ∧
      lexer.advance.offset = lexer.offset := by
  -- only code is returned to
  have head := (h.keeps.ahead h.mode).resolve_right fun ahead => by
    rw [noLabel] at ahead
    exact ahead.elim noArrow Bool.false_ne_true
  obtain ⟨more, enclosing⟩ := List.head?_eq_some_iff.1 head
  refine ⟨?_, ?_, ?_⟩
  · change lexer.step.context.mode = .code
    rw [left]
    change lexer.context.pop.mode = .code
    rw [Context.pop, enclosing]
  · change lexer.rest.drop lexer.step.length = lexer.rest
    rw [left]
    rfl
  · change lexer.offset + lexer.step.length = lexer.offset
    rw [left]
    rfl

/-- **The token after an arrow** is made where the arrow ends, and it is a name if it begins like
one. -/
theorem AfterArrow.first (h : lexer.AfterArrow) {first : Token} {later : List Token}
    (tokens : lexer.scan.tokens = first :: later) :
    first.span.start = lexer.offset ∧ lexer.Meets first later := by
  by_cases nil : lexer.rest = []
  · rw [scan_of_nil nil] at tokens
    obtain ⟨rfl, -⟩ := List.cons.inj tokens
    refine ⟨rfl, .other nofun ?_⟩
    rw [nil]
    rfl
  have made {kind : TokenKind} {value : TokenValue}
      (token : lexer.step.token = some (kind, value)) :
      first = ⟨kind, lexer.span, value⟩ ∧ lexer.advance.scan.tokens = later := by
    rw [scan_tokens_of_token token ((step_move nil).ne_endOfSource token)] at tokens
    obtain ⟨rfl, rfl⟩ := List.cons.inj tokens
    exact ⟨rfl, rfl⟩
  have noName (none : nextIs isLabelStart lexer.rest = false) (length : Nat) :
      nextIs isLabelStart (lexer.rest.take length) = false := by
    rcases length with _ | length
    · rfl
    · rw [Number.nextIs_take (Nat.succ_pos length)]
      exact none
  have step := step_in_property h.mode nil
  obtain ⟨taken, eq⟩ : ∃ taken, lexer.step = taken := ⟨_, rfl⟩
  obtain ⟨text, rest⟩ : ∃ text, lexer.rest = text := ⟨_, rfl⟩
  rw [eq, rest] at step
  cases step with
  | blanks blank =>
    obtain ⟨rfl, goesOn⟩ := made (by rw [eq]; rfl)
    refine ⟨rfl, .blanks rfl (noName ?_ _) ⟨h.keeps.advance nil, ?_⟩ goesOn⟩
    · rw [rest, ← Bool.not_eq_true]
      intro label
      rw [Interpolation.not_isBlank_of_ahead (.inr label)] at blank
      cases blank
    · change lexer.step.context.mode = .property
      rw [eq]
      exact h.mode
  | arrow front | nullsafeArrow front =>
    obtain ⟨behind, rfl⟩ := front
    obtain ⟨rfl, -⟩ := made (by rw [eq]; rfl)
    exact ⟨rfl, .other nofun (noName (by rw [rest]; rfl) _)⟩
  | name begins =>
    obtain ⟨rfl, -⟩ := made (by rw [eq]; rfl)
    refine ⟨rfl, .name rfl ?_⟩
    have length : lexer.step.length = (text.takeWhile isLabelPart).length := by
      rw [eq]
      rfl
    change lexer.rest.take lexer.step.length = _
    rw [length, rest]
    exact (List.prefix_iff_eq_take.1 (List.takeWhile_prefix _)).symm
  | other noBlank noArrow noLabel =>
    -- what comes is read in front of the same character
    obtain ⟨code, same, offset⟩ := h.leaves eq (rest ▸ noArrow) (rest ▸ noLabel)
    rw [scan_of_silent (by rw [eq]; rfl)] at tokens
    obtain ⟨start, kind, begins⟩ :=
      first_in_code code (by rwa [same]) (by rwa [same, rest]) tokens
    rw [same, rest, noLabel, ← rest] at begins
    exact ⟨start.trans offset, .other kind begins⟩

variable {settings : Settings} {source : List Char} {shift : Nat}

/-- Blanks make no difference to that. -/
theorem AfterArrow.name (h : lexer.AfterArrow) (within : lexer.Within settings source shift)
    {blanks back : List Token} {token : Token}
    (tokens : lexer.scan.tokens = blanks ++ token :: back)
    (white : ∀ blank ∈ blanks, blank.kind = .whitespace)
    (begins : nextIs isLabelStart (token.span.slice shift source)) :
    token.kind = .identifier ∧ token.span.slice shift source =
      (source.drop (token.span.start - shift)).takeWhile isLabelPart := by
  induction blanks generalizing lexer with
  | nil =>
    obtain ⟨start, meets⟩ := h.first tokens
    have rest : lexer.rest = source.drop (token.span.start - shift) := by
      rw [start]
      exact within.rest_eq
    have slice : token.span.slice shift source = lexer.rest.take token.span.length := by
      rw [rest]
      rfl
    rw [slice] at begins ⊢
    cases meets with
    | blanks kind noName | other kind noName =>
      rw [noName] at begins
      cases begins
    | name kind whole => exact ⟨kind, by rw [whole, rest]⟩
  | cons blank blanks ih =>
    have isBlank := white blank List.mem_cons_self
    obtain ⟨-, meets⟩ := h.first tokens
    cases meets with
    | blanks kind noName goesOn tokens =>
      exact ih goesOn within.advance tokens fun blank mem =>
        white blank (List.mem_cons_of_mem _ mem)
    | name kind =>
      rw [kind] at isBlank
      cases isBlank
    | other kind => exact absurd isBlank kind

/-- An arrow is followed in the mode made for it, in code as in a string. -/
theorem mode_of_arrow {mark : Mark} (isArrow : mark = .arrow ∨ mark = .nullsafeArrow)
    (ne : lexer.rest ≠ []) (token : lexer.step.token = some (.mark mark, value)) :
    lexer.advance.context.mode = .property := by
  change lexer.step.context.mode = .property
  cases step_move ne with
  | token made pos le turn =>
    obtain ⟨rfl, -⟩ := Step.token_inj token made
    generalize lexer.step.changes = changes, lexer.step.context = after at turn
    cases turn with
    | stays doc h =>
      revert h
      change _ → lexer.context.mode = .property
      rcases isArrow with rfl | rfl <;> cases lexer.context.mode <;> first
        | exact fun _ => rfl
        | exact nofun
    | enters h | closes doc h =>
      revert h
      rcases isArrow with rfl | rfl <;> cases lexer.context.mode <;> exact nofun
    | @opens _ inner doc h =>
      revert h
      change _ → inner = .property
      rcases isArrow with rfl | rfl <;> cases inner <;> first
        | exact fun _ => rfl
        | exact nofun
    | unmatched => rcases isArrow with isArrow | isArrow <;> cases isArrow
  | opensBody code body ne made | closesBody mode made => cases (Step.token_inj token made).1
  | reachesLabel body held le front indent made =>
    rcases made with ⟨none, -⟩ | ⟨_, made, -⟩
    · rw [none] at token
      cases token
    · cases (Step.token_inj token made).1
  | leaves free none | looksOn mode none =>
    rw [none] at token
    cases token

/-- **A name after an arrow is an identifier**, whatever word it is. In a scan from the beginning
of a source, or from code, a token that comes after an arrow, with white space between at most, and
that begins with a letter is an identifier, and it is the longest label there. -/
theorem scan_names_after_arrows (settings : Settings) (source : List Char) (shift : Nat)
    {mode : Mode} (h : mode = .markup ∨ mode = .code) :
    ∀ (front : List Token) (arrow : Token) (blanks : List Token) (token : Token)
      (back : List Token),
      (start settings source shift { mode }).scan.tokens =
        front ++ arrow :: (blanks ++ token :: back) →
      arrow.kind = .mark .arrow ∨ arrow.kind = .mark .nullsafeArrow →
      (∀ blank ∈ blanks, blank.kind = .whitespace) →
      nextIs isLabelStart (token.span.slice shift source) →
      token.kind = .identifier ∧ token.span.slice shift source =
        (source.drop (token.span.start - shift)).takeWhile isLabelPart := by
  intro front arrow blanks token back tokens isArrow white begins
  obtain ⟨mark, kind, isArrow⟩ : ∃ mark, arrow.kind = .mark mark ∧
      (mark = .arrow ∨ mark = .nullsafeArrow) := by
    rcases isArrow with kind | kind
    · exact ⟨_, kind, .inl rfl⟩
    · exact ⟨_, kind, .inr rfl⟩
  obtain ⟨maker, keeps, within, ne, made, -, later⟩ :=
    exists_maker_within (motive := KeepsArrows) (fun _ ne h => h.advance ne)
      (.start settings source shift h) tokens (by rw [kind]; exact nofun)
  rw [kind] at made
  have after : maker.advance.AfterArrow := ⟨keeps.advance ne, mode_of_arrow isArrow ne made⟩
  exact after.name within.advance later white begins

/-- A reserved word after an arrow and a blank. -/
theorem scan_names_after_arrows_keyword :
    let source := "$a-> new".toList
    ∃ front arrow blanks token back,
      (start {} source 0 { mode := .code }).scan.tokens =
        front ++ arrow :: (blanks ++ token :: back) ∧
      arrow.kind = .mark .arrow ∧ (∀ blank ∈ blanks, blank.kind = .whitespace) ∧
      token.span = ⟨5, 3⟩ ∧ token.kind = .identifier ∧
      token.span.slice 0 source = (source.drop (token.span.start - 0)).takeWhile isLabelPart := by
  intro source
  let lexerAt (offset : Nat) (mode : Mode) (enclosing : List Mode) : Lexer :=
    { settings := {}, rest := source.drop offset, offset, lineStart := false,
      context := { mode, enclosing } }
  have dollar : (start {} source 0 { mode := .code }).step.token = some (.variable, _) := rfl
  have first : (start {} source 0 { mode := .code }).advance = lexerAt 2 .code [] := rfl
  have arrow : (lexerAt 2 .code []).step.token = some (.mark .arrow, _) := rfl
  have second : (lexerAt 2 .code []).advance = lexerAt 4 .property [.code] := rfl
  have blank : (lexerAt 4 .property [.code]).step.token = some (.whitespace, _) := rfl
  have third : (lexerAt 4 .property [.code]).advance = lexerAt 5 .property [.code] := rfl
  have word : (lexerAt 5 .property [.code]).step.token = some (.identifier, _) := rfl
  have all := scan_tokens_of_token dollar nofun
  rw [first, scan_tokens_of_token arrow nofun, second, scan_tokens_of_token blank nofun, third,
    scan_tokens_of_token word nofun] at all
  have white : ∀ blank ∈ [(⟨.whitespace, (lexerAt 4 .property [.code]).span, .none⟩ : Token)],
      blank.kind = .whitespace := by
    simp
  have span : (lexerAt 5 .property [.code]).span = ⟨5, 3⟩ := rfl
  rw [span] at all
  exact ⟨[_], _, [_], _, _, all, rfl, white, rfl,
    scan_names_after_arrows {} source 0 (.inr rfl) [_] _ [_] _ _ all (.inl rfl) white (by decide)⟩

end Lexer

end PhpFrontEnd
