import PhpFrontEnd.Lexer.Progress

/-!
# Tokens of a source

A lexer takes steps until one makes a token (`Lexer.next`), and goes on like that to the end of
the source (`Lexer.scan`) or to a token of interest (`Lexer.scanUntil`). What the steps found on
the way, problems and shared texts, is handed out with the tokens.

At the end of the source the end token comes, again and again.
-/

namespace PhpFrontEnd

/-- One token, and what was found up to it. -/
structure Scanned where
  token : Token
  diagnostics : List Diagnostic
  /-- texts that are kept once for all tokens, in the order they were met -/
  shared : List String
  /-- the lexer after the token -/
  lexer : Lexer

/-- Several tokens, and what was found up to the last of them. -/
structure Scan where
  tokens : List Token
  diagnostics : List Diagnostic
  /-- texts that are kept once for all tokens, in the order they were met -/
  shared : List String
  /-- the lexer after the last token -/
  lexer : Lexer

namespace Lexer

/-- At the end of the source the end token is read. -/
theorem step_token_of_rest_eq_nil {lexer : Lexer} (h : lexer.rest = []) :
    lexer.step.token = some (.endOfSource, .none) := by
  rw [step_of_rest_eq_nil h]
  rfl

/-- So a step without a token has something in front of it. -/
theorem rest_ne_nil_of_step_token {lexer : Lexer} (h : lexer.step.token = none) :
    lexer.rest ≠ [] := by
  intro nil
  simp [step_token_of_rest_eq_nil nil] at h

/-- The problems of the next step, at its place. -/
def found (lexer : Lexer) : List Diagnostic := lexer.step.errors.map fun e => ⟨lexer.span, e⟩

/-- The next token. -/
def next (lexer : Lexer) : Scanned :=
  match _ : lexer.step.token with
  | some (kind, value) =>
    { token := ⟨kind, lexer.span, value⟩
      diagnostics := lexer.found
      shared := lexer.step.shared
      lexer := lexer.advance }
  | none =>
    let later := lexer.advance.next
    { later with
      diagnostics := lexer.found ++ later.diagnostics
      shared := lexer.step.shared ++ later.shared }
termination_by lexer.work
decreasing_by exact work_advance_lt (rest_ne_nil_of_step_token ‹_›)

/-- A token other than the end token lowers the work. -/
theorem work_next_lt {lexer : Lexer} (h : lexer.next.token.kind ≠ .endOfSource) :
    lexer.next.lexer.work < lexer.work := by
  fun_induction next lexer with
  | case1 lexer kind value token =>
    refine work_advance_lt fun nil => h ?_
    rw [step_token_of_rest_eq_nil nil] at token
    simp only [Option.some.injEq, Prod.mk.injEq] at token
    exact token.1.symm
  | case2 lexer token later ih =>
    exact Nat.lt_trans (ih h) (work_advance_lt (rest_ne_nil_of_step_token token))

/-- The tokens up to and with the first whose kind is asked for, or the end token. -/
def scanUntil (stop : TokenKind → Bool) (lexer : Lexer) : Scan :=
  let first := lexer.next
  if _ : first.token.kind = .endOfSource ∨ stop first.token.kind then
    { first with tokens := [first.token] }
  else
    let later := first.lexer.scanUntil stop
    { later with
      tokens := first.token :: later.tokens
      diagnostics := first.diagnostics ++ later.diagnostics
      shared := first.shared ++ later.shared }
termination_by lexer.work
decreasing_by exact work_next_lt fun kind => absurd (Or.inl kind) (by assumption)

/-- The tokens up to and with the end token. -/
def scan (lexer : Lexer) : Scan := lexer.scanUntil fun _ => false

end Lexer

end PhpFrontEnd
