import PhpFrontEnd.Lexer.Run

/-!
# Scans, step by step

A scan is defined token by token and a token step by step. Here both are taken apart into steps:
what the next step adds to a token and to a scan, and induction over the steps that a lexer has
still to take. What every step preserves holds after any number of tokens.
-/

namespace PhpFrontEnd.Lexer

variable {lexer : Lexer} {kind : TokenKind} {value : TokenValue} {stop : TokenKind → Bool}

/-! ## The next step -/

/-- A call is one step if that step makes a token. -/
theorem next_of_token (h : lexer.step.token = some (kind, value)) :
    lexer.next =
      { token := ⟨kind, lexer.span, value⟩
        diagnostics := lexer.found
        shared := lexer.step.shared
        lexer := lexer.advance } := by
  rw [next]
  split
  · rename_i eq
    obtain ⟨rfl, rfl⟩ := Step.token_inj eq h
    rfl
  · rename_i none
    rw [none] at h
    cases h

/-- A call goes on after a step without a token, and keeps what was found. -/
theorem next_of_silent (h : lexer.step.token = none) :
    lexer.next =
      { lexer.advance.next with
        diagnostics := lexer.found ++ lexer.advance.next.diagnostics
        shared := lexer.step.shared ++ lexer.advance.next.shared } := by
  rw [next]
  split
  · rename_i eq
    rw [eq] at h
    cases h
  · rfl

/-- A scan goes on after a token at which it need not stop. -/
theorem scanUntil_of_next (h : lexer.next.token.kind ≠ .endOfSource)
    (goes : stop lexer.next.token.kind = false) :
    lexer.scanUntil stop =
      { lexer.next.lexer.scanUntil stop with
        tokens := lexer.next.token :: (lexer.next.lexer.scanUntil stop).tokens
        diagnostics := lexer.next.diagnostics ++ (lexer.next.lexer.scanUntil stop).diagnostics
        shared := lexer.next.shared ++ (lexer.next.lexer.scanUntil stop).shared } := by
  rw [scanUntil]
  simp only [h, goes, Bool.false_eq_true, or_false, dite_false]

/-- A scan stops at the end, or at the token it looks for. -/
theorem scanUntil_of_last (h : lexer.next.token.kind = .endOfSource ∨ stop lexer.next.token.kind) :
    lexer.scanUntil stop = { lexer.next with tokens := [lexer.next.token] } := by
  rw [scanUntil]
  exact dif_pos h

/-- A step that makes a token puts it in front of the rest, if the scan does not stop there. -/
theorem scanUntil_of_token (h : lexer.step.token = some (kind, value)) (ne : kind ≠ .endOfSource)
    (goes : stop kind = false) :
    lexer.scanUntil stop =
      { lexer.advance.scanUntil stop with
        tokens := ⟨kind, lexer.span, value⟩ :: (lexer.advance.scanUntil stop).tokens
        diagnostics := lexer.found ++ (lexer.advance.scanUntil stop).diagnostics
        shared := lexer.step.shared ++ (lexer.advance.scanUntil stop).shared } := by
  have eq := next_of_token h
  rw [scanUntil_of_next (by rw [eq]; exact ne) (by rw [eq]; exact goes), eq]

/-- A step that makes no token leaves the tokens alone. -/
theorem scanUntil_of_silent (h : lexer.step.token = none) :
    lexer.scanUntil stop =
      { lexer.advance.scanUntil stop with
        diagnostics := lexer.found ++ (lexer.advance.scanUntil stop).diagnostics
        shared := lexer.step.shared ++ (lexer.advance.scanUntil stop).shared } := by
  have eq := next_of_silent h
  by_cases last : lexer.advance.next.token.kind = .endOfSource ∨ stop lexer.advance.next.token.kind
  · rw [scanUntil_of_last (by rw [eq]; exact last), scanUntil_of_last last, eq]
  · obtain ⟨ne, goes⟩ := not_or.1 last
    rw [Bool.not_eq_true] at goes
    rw [scanUntil_of_next (by rw [eq]; exact ne) (by rw [eq]; exact goes),
      scanUntil_of_next ne goes, eq]
    simp only [List.append_assoc]

theorem scan_of_next (h : lexer.next.token.kind ≠ .endOfSource) :
    lexer.scan =
      { lexer.next.lexer.scan with
        tokens := lexer.next.token :: lexer.next.lexer.scan.tokens
        diagnostics := lexer.next.diagnostics ++ lexer.next.lexer.scan.diagnostics
        shared := lexer.next.shared ++ lexer.next.lexer.scan.shared } :=
  scanUntil_of_next h rfl

theorem scan_of_next_end (h : lexer.next.token.kind = .endOfSource) :
    lexer.scan = { lexer.next with tokens := [lexer.next.token] } :=
  scanUntil_of_last (.inl h)

/-- A step with a token adds the token to the scan that follows. -/
theorem scan_of_token (h : lexer.step.token = some (kind, value)) (ne : kind ≠ .endOfSource) :
    lexer.scan =
      { lexer.advance.scan with
        tokens := ⟨kind, lexer.span, value⟩ :: lexer.advance.scan.tokens
        diagnostics := lexer.found ++ lexer.advance.scan.diagnostics
        shared := lexer.step.shared ++ lexer.advance.scan.shared } :=
  scanUntil_of_token h ne rfl

/-- A step without a token adds what it found. -/
theorem scan_of_silent (h : lexer.step.token = none) :
    lexer.scan =
      { lexer.advance.scan with
        diagnostics := lexer.found ++ lexer.advance.scan.diagnostics
        shared := lexer.step.shared ++ lexer.advance.scan.shared } :=
  scanUntil_of_silent h

/-- At the end of the source a step changes nothing. -/
theorem advance_of_nil (h : lexer.rest = []) : lexer.advance = lexer := by
  obtain ⟨settings, rest, offset, lineStart, context⟩ := lexer
  cases h
  rfl

/-- At the end of the source the end token is all there is. -/
theorem scan_of_nil (h : lexer.rest = []) :
    lexer.scan =
      { tokens := [⟨.endOfSource, ⟨lexer.offset, 0⟩, .none⟩]
        diagnostics := []
        shared := []
        lexer } := by
  have eq := next_of_token (step_token_of_rest_eq_nil h)
  rw [scan_of_next_end (by rw [eq]), eq, advance_of_nil h]
  obtain ⟨settings, rest, offset, lineStart, context⟩ := lexer
  cases h
  rfl

/-- A scan begins with the next token. -/
theorem scan_tokens_eq (lexer : Lexer) :
    ∃ later, lexer.scan.tokens = lexer.next.token :: later := by
  by_cases ends : lexer.next.token.kind = .endOfSource
  · rw [scan_of_next_end ends]
    exact ⟨[], rfl⟩
  · rw [scan_of_next ends]
    exact ⟨lexer.next.lexer.scan.tokens, rfl⟩

/-! ## Induction over steps -/

/-- What holds at the end of a source, and before each step that it holds after, holds of every
lexer. -/
theorem step_induction {motive : Lexer → Prop} (nil : ∀ lexer, lexer.rest = [] → motive lexer)
    (step : ∀ lexer, lexer.rest ≠ [] → motive lexer.advance → motive lexer) (lexer : Lexer) :
    motive lexer := by
  by_cases h : lexer.rest = []
  · exact nil lexer h
  · exact step lexer h (step_induction nil step lexer.advance)
termination_by lexer.work
decreasing_by exact work_advance_lt h

/-- The next token does not stand in front of the lexer. -/
theorem offset_le_next (lexer : Lexer) : lexer.offset ≤ lexer.next.token.span.start := by
  induction lexer using step_induction with
  | nil lexer nil =>
    rw [next_of_token (step_token_of_rest_eq_nil nil)]
    exact Nat.le_refl _
  | step lexer ne ih =>
    rcases token : lexer.step.token with _ | ⟨kind, value⟩
    · rw [next_of_silent token]
      exact Nat.le_trans (Nat.le_add_right _ _) ih
    · rw [next_of_token token]
      exact Nat.le_refl _

/-! ## After some tokens -/

/-- The lexer after a number of tokens. -/
def after : (count : Nat) → Lexer → Lexer
  | 0, lexer => lexer
  | count + 1, lexer => after count lexer.next.lexer

theorem after_succ_of_token {count : Nat} (h : lexer.step.token.isSome) :
    lexer.after (count + 1) = lexer.advance.after count := by
  obtain ⟨⟨kind, value⟩, token⟩ := Option.isSome_iff_exists.1 h
  rw [after, next_of_token token]

/-- What every step preserves is preserved up to the next token. -/
theorem next_of_advance {motive : Lexer → Prop}
    (step : ∀ lexer, motive lexer → motive lexer.advance) (h : motive lexer) :
    motive lexer.next.lexer := by
  induction lexer using step_induction with
  | nil lexer nil =>
    rw [next_of_token (step_token_of_rest_eq_nil nil)]
    exact step lexer h
  | step lexer ne ih =>
    rcases token : lexer.step.token with _ | ⟨kind, value⟩
    · rw [next_of_silent token]
      exact ih (step lexer h)
    · rw [next_of_token token]
      exact step lexer h

/-- What every step preserves holds after any number of tokens. -/
theorem after_of_advance {motive : Lexer → Prop}
    (step : ∀ lexer, motive lexer → motive lexer.advance) (count : Nat) (h : motive lexer) :
    motive (lexer.after count) := by
  induction count generalizing lexer with
  | zero => exact h
  | succ count ih => exact ih (next_of_advance step h)

end PhpFrontEnd.Lexer
