import PhpFrontEnd.Proofs.Modes
import PhpFrontEnd.Proofs.Reports

/-!
# The pending documentation comment

Which documentation comment waits for a declaration is part of what a lexer remembers. It can also
be told from the tokens alone: a documentation comment becomes pending, a semicolon or a brace drops
it, and no other token matters (`TokenKind.decidesDoc`). So the last token of these four kinds
decides (`Lexer.pendingDoc_calls`).

Braces come up in many places: they enclose code, they end interpolations, and they may be
unmatched. But only in code do steps make one of the four kinds, and only there do they touch the
comment. The openings of interpolations are braces of other kinds, and leave the comment alone like
every other step outside of code (`Step.KeepsDoc`).
-/

namespace PhpFrontEnd

/-! ## What the tokens tell -/

/-- The tokens that decide which documentation comment is pending. -/
def TokenKind.decidesDoc : TokenKind → Bool
  | .docComment | .mark .semicolon | .mark .leftBrace | .mark .rightBrace => true
  | _ => false

/-- The last token that decides which documentation comment is pending. -/
def lastDeciding? (tokens : List Token) : Option Token :=
  (tokens.filter (·.kind.decidesDoc)).getLast?

/-- A token that is a documentation comment. -/
structure Token.Documents (token : Token) (doc : DocComment) : Prop where
  kind : token.kind = .docComment
  value : token.value = .text (.str doc.text)
  span : token.span = doc.span

/-- The documentation comment that is pending after the token that decided last. -/
inductive Pending : Option Token → Option DocComment → Prop where
  /-- no token has decided yet -/
  | undecided : Pending none none
  | comment {token : Token} {doc : DocComment} (documents : token.Documents doc) :
    Pending (some token) (some doc)
  | dropped {token : Token} (ne : token.kind ≠ .docComment) : Pending (some token) none

namespace Pending

variable {last : Option Token} {doc : Option DocComment}

/-- A comment is pending if the last deciding token is one. -/
theorem isSome_iff (h : Pending last doc) :
    doc.isSome ↔ ∃ token, last = some token ∧ token.kind = .docComment := by
  cases h with
  | undecided => simp
  | comment documents => exact iff_of_true rfl ⟨_, rfl, documents.kind⟩
  | dropped ne =>
    refine iff_of_false (by simp) ?_
    rintro ⟨token, eq, kind⟩
    obtain rfl := Option.some.inj eq
    exact ne kind

/-- The pending comment has the text and the span of that token. -/
theorem documents {comment : DocComment} (h : Pending last (some comment)) :
    ∃ token, last = some token ∧ token.Documents comment := by
  cases h with
  | comment documents => exact ⟨_, rfl, documents⟩

end Pending

/-! ## Steps that leave the comment alone -/

/-- A step that leaves the pending documentation comment alone, and whose token tells so. -/
structure Step.KeepsDoc (context : Context) (step : Step) : Prop where
  doc : step.context.doc = context.doc
  free : ∀ kind value, step.token = some (kind, value) → kind.decidesDoc = false

/-- Leaving a mode leaves the pending documentation comment. -/
theorem Context.doc_pop (context : Context) : context.pop.doc = context.doc := by
  rw [pop]
  split <;> rfl

/-- So does every other change of modes. -/
theorem Context.doc_change (context : Context) (change : ModeChange) :
    (context.change change).doc = context.doc := by
  cases change with
  | push inner => rfl
  | pop => exact context.doc_pop
  | enter mode => rfl

variable {settings : Settings} {context after : Context} {text : List Char}

namespace Step

variable {step : Step} {kind : TokenKind} {value : TokenValue}

/-- A token that decides nothing leaves the comment alone. -/
theorem keepsDoc_of_token (token : step.token = some (kind, value)) (free : kind.decidesDoc = false)
    (doc : step.context.doc = context.doc) : step.KeepsDoc context := by
  refine ⟨doc, fun kind' value' token' => ?_⟩
  obtain ⟨rfl, rfl⟩ := Step.token_inj token token'
  exact free

/-- Without a token nothing is decided. -/
theorem keepsDoc_of_silent (token : step.token = none) (doc : step.context.doc = context.doc) :
    step.KeepsDoc context := by
  refine ⟨doc, fun kind value token' => ?_⟩
  rw [token] at token'
  cases token'

/-- A change of modes leaves the comment alone. -/
theorem KeepsDoc.change {change : ModeChange} (h : step.KeepsDoc context) :
    (step.change change).KeepsDoc context :=
  ⟨(Context.doc_change step.context change).trans h.doc, h.free⟩

end Step

/-- Neither markup nor the tag after it touches the comment. -/
theorem Markup.AtMarkup.keepsDoc {step : Step} (h : AtMarkup settings context text step) :
    step.KeepsDoc context := by
  cases h with
  | tag front =>
    refine .change (Step.keepsDoc_of_token rfl ?_ rfl)
    rcases openTagAt?_kind front with rfl | rfl <;> rfl
  | run => exact Step.keepsDoc_of_token rfl rfl rfl

namespace Number

variable {literal digits : List Char} {step : Step}

/-- Neither a number nor what is wrong with it touches the comment. -/
theorem Makes.keepsDoc (h : Makes context literal step) : step.KeepsDoc context := by
  obtain ⟨kind, value, token, isNumber⟩ := h.exists_token
  refine Step.keepsDoc_of_token token ?_ (congrArg Context.doc h.context_eq)
  simp only [List.mem_cons, List.not_mem_nil, or_false] at isNumber
  rcases isNumber with rfl | rfl | rfl <;> rfl

/-- A number between brackets does not, whether it stays text or not. -/
theorem MakesKey.keepsDoc (h : MakesKey context digits step) : step.KeepsDoc context := by
  cases h with
  | padded | tooBig => exact Step.keepsDoc_of_token rfl rfl rfl
  | @word value =>
    obtain ⟨read, h | h⟩ := integerToken_eq .offsetNumber .offsetNumber value <;>
      exact Step.keepsDoc_of_token (congrArg some h) rfl rfl

end Number

namespace Interpolation

/-- The braces that open an interpolation are of kinds of their own. -/
theorem AtStart.keepsDoc {step : Step} (h : AtStart context text step) :
    step.KeepsDoc context := by
  have plain : (emitVariable context text).KeepsDoc context := Step.keepsDoc_of_token rfl rfl rfl
  cases h with
  | dollarBrace | brace => exact .change (Step.keepsDoc_of_token rfl rfl rfl)
  | element | property => exact plain.change
  | plain => exact plain

theorem AtProperty.keepsDoc {step : Step} (h : AtProperty context text step) :
    step.KeepsDoc context := by
  cases h with
  | blanks | arrow | nullsafeArrow => exact Step.keepsDoc_of_token rfl rfl rfl
  | name => exact .change (Step.keepsDoc_of_token rfl rfl rfl)
  | other => exact .change (Step.keepsDoc_of_silent rfl rfl)

/-- The name of a variable in braces leaves the comment alone, and so does code after it. -/
theorem AtVariableName.keepsDoc {step : Step} (h : AtVariableName context text step) :
    step.KeepsDoc context := by
  cases h with
  | name => exact .change (.change (Step.keepsDoc_of_token rfl rfl rfl))
  | other => exact .change (.change (Step.keepsDoc_of_silent rfl rfl))

/-- Between brackets there are no braces. -/
theorem AtOffset.keepsDoc {step : Step} (h : AtOffset context text step) :
    step.KeepsDoc context := by
  cases h with
  | bracket | minus | dollar | name => exact Step.keepsDoc_of_token rfl rfl rfl
  | closing => exact .change (Step.keepsDoc_of_token rfl rfl rfl)
  | number _ makes => exact makes.keepsDoc
  | other => exact .change (Step.keepsDoc_of_silent rfl rfl)

end Interpolation

namespace Quoted

variable {quote : Char} {kind : TokenKind} {mode : EscapeMode} {interpolates : Bool} {before : Nat}
  {step : Step}

/-- An opening quote leaves the comment alone, with or without the string behind it. -/
theorem AtQuote.keepsDoc (h : AtQuote settings context text before step) :
    step.KeepsDoc context := by
  cases h with
  | closed => exact Step.keepsDoc_of_token rfl rfl rfl
  | single | double => exact .change (Step.keepsDoc_of_token rfl rfl rfl)

/-- In a string the comment is kept up to the closing quote and past it. -/
theorem InQuotes.keepsDoc (h : InQuotes settings context quote kind mode interpolates text step)
    (free : kind.decidesDoc = false) : step.KeepsDoc context := by
  cases h with
  | closing => exact .change (Step.keepsDoc_of_token rfl free rfl)
  | interpolation _ _ front => exact front.keepsDoc
  | run => exact Step.keepsDoc_of_token rfl rfl rfl

end Quoted

namespace HeredocBody

theorem openingStep?_keepsDoc {before : Nat} {step : Step}
    (h : openingStep? context text before = some step) : step.KeepsDoc context := by
  obtain ⟨opening, -, rfl⟩ := Option.map_eq_some_iff.1 h
  exact Step.keepsDoc_of_token rfl rfl rfl

/-- A fragment in front of a closing label keeps the comment. -/
theorem closeStep_keepsDoc (isNowdoc lineStart : Bool) (source : List Char) :
    (closeStep settings context isNowdoc lineStart source).KeepsDoc context := by
  rw [closeStep_eq]
  dsimp only
  split
  · exact Step.keepsDoc_of_silent rfl rfl
  · exact Step.keepsDoc_of_token rfl rfl rfl

theorem AtBody.keepsDoc {lineStart isNowdoc : Bool} {step : Step}
    (h : AtBody settings context lineStart text isNowdoc step) : step.KeepsDoc context := by
  cases h with
  | unlabelled => exact .change (Step.keepsDoc_of_silent rfl rfl)
  | closes => exact closeStep_keepsDoc _ _ _
  | interpolates => exact (Interpolation.atStart context text).keepsDoc
  | fragment | source => exact Step.keepsDoc_of_token rfl rfl rfl

/-- Giving up the label leaves the comment. -/
theorem AtClosing.keepsDoc {step : Step} (h : AtClosing context text step) :
    step.KeepsDoc context := by
  cases h with
  | gone | label => exact .change (Step.keepsDoc_of_token rfl rfl rfl)

end HeredocBody

/-! ## Steps in code -/

/-- What a step, `start` characters from the beginning of the source, does to the pending
documentation comment. -/
inductive Step.DocTurn (context : Context) (start : Nat) (step : Step) : Prop where
  | keeps (h : step.KeepsDoc context)
  | comment {text : String} (token : step.token = some (.docComment, .text (.str text)))
    (pending : step.context.doc = some ⟨text, ⟨start, step.length⟩⟩)
  | drops {kind : TokenKind} {value : TokenValue} (token : step.token = some (kind, value))
    (decides : kind.decidesDoc) (ne : kind ≠ .docComment) (dropped : step.context.doc = none)

namespace Code

variable {start : Nat}

/-- Semicolons and braces drop the comment, whether the braces match or not. -/
theorem doc_afterMark (step : Step) (mark : Mark) : (afterMark step mark).context.doc =
    if (TokenKind.mark mark).decidesDoc then none else step.context.doc := by
  cases mark
  case rightBrace =>
    unfold afterMark
    dsimp only
    split
    · rfl
    · exact Context.doc_pop _
  all_goals rfl

/-- A semicolon or a brace drops the comment, whether or not the brace closes anything. -/
theorem AtMark.docTurn {step : Step} (h : AtMark context text step) :
    step.DocTurn context start := by
  cases h with
  | @mark length mark =>
    have token := token_afterMark (.emit context (.mark mark) length) mark
    have after := doc_afterMark (.emit context (.mark mark) length) mark
    have other : TokenKind.mark mark ≠ .docComment := by
      intro eq
      cases eq
    by_cases decides : (TokenKind.mark mark).decidesDoc
    · exact .drops token decides other (after.trans (if_pos decides))
    · exact .keeps (Step.keepsDoc_of_token token (by simpa using decides)
        (after.trans (if_neg decides)))
  | bad => exact .keeps (Step.keepsDoc_of_token rfl rfl rfl)

/-- A name keeps the comment, which may be that of a declaration it begins. -/
theorem AtName.keepsDoc {step : Step} (h : AtName context text step) : step.KeepsDoc context := by
  cases h with
  | word isWord =>
    refine Step.keepsDoc_of_token rfl ?_ rfl
    obtain rfl | ⟨keyword, rfl⟩ := isWord <;> rfl
  | yieldFrom => exact Step.keepsDoc_of_token rfl rfl rfl

/-- A documentation comment becomes pending as the token has it. -/
theorem AtBlockComment.docTurn {step : Step} (h : AtBlockComment context start text step) :
    step.DocTurn context start := by
  cases h with
  | plain => exact .keeps (Step.keepsDoc_of_token rfl rfl rfl)
  | doc => exact .comment rfl rfl

/-- Every step in code leaves the comment alone, makes one pending or drops it. -/
theorem AtCode.docTurn {step : Step} (h : AtCode settings context start text step) :
    step.DocTurn context start := by
  cases h with
  | attributeOpen | lineComment | separator | cast | whitespace | dollar =>
    exact .keeps (Step.keepsDoc_of_token rfl rfl rfl)
  | closeTag | backquote => exact .keeps (.change (Step.keepsDoc_of_token rfl rfl rfl))
  | blockComment comment => exact comment.docTurn
  | quote _ quoted => exact .keeps quoted.keepsDoc
  | heredoc _ opening => exact .keeps (HeredocBody.openingStep?_keepsDoc opening)
  | number front =>
    obtain ⟨literal, -, -, makes⟩ := Number.exists_makes context front
    exact .keeps makes.keepsDoc
  | name _ named => exact .keeps named.keepsDoc
  | mark marked => exact marked.docTurn

end Code

/-! ## Lexers -/

namespace Lexer

variable {lexer : Lexer}

/-- Of all steps only those in code turn the comment. -/
theorem step_docTurn (lexer : Lexer) : lexer.step.DocTurn lexer.context lexer.offset := by
  by_cases nil : lexer.rest = []
  · rw [step_of_rest_eq_nil nil]
    exact .keeps (Step.keepsDoc_of_token rfl rfl rfl)
  rw [step_eq nil]
  cases lexer.context.mode with
  | markup => exact .keeps (Markup.atMarkup ..).keepsDoc
  | code => exact (Code.atCode _ _ _ nil).docTurn
  | doubleQuoted | backquoted => exact .keeps ((Quoted.inInterpolated ..).keepsDoc rfl)
  | singleQuoted => exact .keeps ((Quoted.inSingleQuoted ..).keepsDoc rfl)
  | heredoc => exact .keeps HeredocBody.atBody_heredoc.keepsDoc
  | nowdoc => exact .keeps HeredocBody.atBody_nowdoc.keepsDoc
  | closingLabel => exact .keeps (HeredocBody.atClosing ..).keepsDoc
  | property => exact .keeps (Interpolation.atProperty ..).keepsDoc
  | variableName => exact .keeps (Interpolation.atVariableName ..).keepsDoc
  | offset => exact .keeps (Interpolation.atOffset ..).keepsDoc

/-- A step without a token leaves the comment alone. -/
theorem doc_of_silent (token : lexer.step.token = none) :
    lexer.advance.context.doc = lexer.context.doc := by
  cases lexer.step_docTurn with
  | keeps h => exact h.doc
  | comment token' | drops token' =>
    rw [token] at token'
    cases token'

/-- A call returns a token that decides, or leaves the comment alone. -/
theorem pending_next {last : Option Token} (h : Pending last lexer.context.doc) :
    Pending ((lastDeciding? [lexer.next.token]).or last) lexer.next.lexer.context.doc := by
  induction lexer using step_induction with
  | nil lexer nil =>
    obtain ⟨token, same⟩ := next_of_nil nil
    rw [token, same]
    exact h
  | step lexer ne ih =>
    rcases token : lexer.step.token with _ | ⟨kind, value⟩
    · -- the call goes on with the comment as it was
      rw [next_of_silent token]
      rw [← doc_of_silent token] at h
      exact ih h
    · rw [next_of_token token]
      change Pending _ lexer.step.context.doc
      cases lexer.step_docTurn with
      | keeps keeps =>
        have free := keeps.free kind value token
        simpa [lastDeciding?, free, keeps.doc] using h
      | comment token' pending =>
        obtain ⟨rfl, rfl⟩ := Step.token_inj token token'
        rw [pending]
        exact .comment ⟨rfl, rfl, rfl⟩
      | drops token' decides other dropped =>
        obtain ⟨rfl, rfl⟩ := Step.token_inj token token'
        have last : Pending (some ⟨kind, lexer.span, value⟩) none := .dropped other
        rw [dropped]
        simpa [lastDeciding?, decides] using last

/-- The last call is made on the lexer after those in front of it. -/
theorem calls_succ (lexer : Lexer) (count : Nat) :
    lexer.calls (count + 1) = lexer.calls count ++ [(lexer.after count).next] := by
  induction count generalizing lexer with
  | zero => rfl
  | succ count ih =>
    rw [calls, ih]
    rfl

/-- A new token decides, or leaves what was decided. -/
theorem lastDeciding?_concat (tokens : List Token) (token : Token) :
    lastDeciding? (tokens ++ [token]) = (lastDeciding? [token]).or (lastDeciding? tokens) := by
  rw [lastDeciding?, List.filter_append, List.getLast?_append]
  rfl

/-- What is pending after some calls is what the last deciding token among theirs says. -/
theorem pending_after (h : lexer.context.doc = none) (count : Nat) :
    Pending (lastDeciding? ((lexer.calls count).map (·.token)))
      (lexer.after count).context.doc := by
  induction count with
  | zero =>
    rw [after, h]
    exact .undecided
  | succ count ih =>
    rw [calls_succ, List.map_append, List.map_singleton, lastDeciding?_concat, after_succ_eq_next]
    exact pending_next ih

/-- **The pending documentation comment follows from the tokens.** After any number of calls for a
token, a documentation comment is pending exactly if the last token so far among documentation
comments, semicolons and braces is a documentation comment. It is then that token: it has its text
and stands at its place. -/
theorem pendingDoc_calls (settings : Settings) (source : List Char) (shift : Nat) (mode : Mode)
    (count : Nat) :
    let first := start settings source shift { mode }
    let last := lastDeciding? ((first.calls count).map (·.token))
    let pending := (first.after count).context.doc
    (pending.isSome ↔ ∃ token, last = some token ∧ token.kind = .docComment) ∧
      ∀ doc, pending = some doc → ∃ token, last = some token ∧ token.Documents doc := by
  intro first last pending
  have holds : Pending last pending := pending_after rfl count
  exact ⟨holds.isSome_iff, fun doc eq => (eq ▸ holds).documents⟩

end Lexer

end PhpFrontEnd
