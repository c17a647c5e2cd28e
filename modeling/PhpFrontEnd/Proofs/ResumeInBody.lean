import PhpFrontEnd.Proofs.LineStart
import PhpFrontEnd.Proofs.Resume

/-!
# Resuming inside a body

A lexer that is resumed takes any place for the start of a line. In the middle of a line of a
heredoc's body it may therefore take for the closing label what is none, miss indentation that is
not owed, or remove blanks that belong to the text.

`Lexer.ResumesAlike` says when none of this happens. It looks no further than the fragment in
front: once a character is taken both lexers know where lines start, and what they have made of
the fragment is not made up for by anything that comes later.
-/

namespace PhpFrontEnd.Lexer

variable {lexer a b : Lexer}

/-- A step in a body. -/
theorem step_body (body : lexer.context.mode.isBody) (ne : lexer.rest ≠ []) :
    lexer.step =
      HeredocBody.bodyStep lexer.settings lexer.context lexer.lineStart lexer.rest := by
  rw [step_eq ne]
  cases mode : lexer.context.mode with
  | heredoc => rw [HeredocBody.bodyStep, mode, if_neg (by decide)]
  | nowdoc => rw [HeredocBody.bodyStep, if_pos mode]
  | _ =>
    rw [mode] at body
    cases body

/-! ## Scans that come to the same -/

/-- Two lexers whose scans have the same tokens and the same diagnostics. -/
def SameScan (a b : Lexer) : Prop :=
  a.scan.tokens = b.scan.tokens ∧ a.scan.diagnostics = b.scan.diagnostics

/-- A step that both lexers take makes no difference. -/
theorem sameScan_iff_of_step_eq (ne : b.rest ≠ []) (place : a.span = b.span)
    (h : a.step = b.step) : a.SameScan b ↔ a.advance.SameScan b.advance := by
  have found : a.found = b.found := by
    rw [Lexer.found, Lexer.found, place, h]
  rcases token : b.step.token with _ | ⟨kind, value⟩
  · rw [SameScan, scan_of_silent token, scan_of_silent (h ▸ token), found, h, SameScan,
      List.append_cancel_left_eq]
  · have notEnd := (step_move ne).ne_endOfSource token
    rw [SameScan, scan_of_token token notEnd, scan_of_token (h ▸ token) notEnd, found, h, place,
      SameScan, List.append_cancel_left_eq, List.cons_inj_right]

/-- When both lexers take the same characters, only what they make of them can differ. -/
theorem sameScan_iff_of_advance_eq (ne : a.rest ≠ []) (ne' : b.rest ≠ []) (place : a.span = b.span)
    (advance : a.advance = b.advance) :
    a.SameScan b ↔ a.step.token = b.step.token ∧ a.step.errors = b.step.errors := by
  have found : a.found = b.found ↔ a.step.errors = b.step.errors := by
    rw [Lexer.found, Lexer.found, place]
    exact List.map_inj_right fun _ _ eq => (Diagnostic.mk.inj eq).2
  rcases token : a.step.token with _ | ⟨kind, value⟩ <;>
    rcases token' : b.step.token with _ | ⟨kind', value'⟩
  · rw [SameScan, scan_of_silent token, scan_of_silent token', advance,
      List.append_cancel_right_eq, found]
    simp
  · rw [SameScan, scan_of_silent token,
      scan_of_token token' ((step_move ne').ne_endOfSource token'), advance]
    exact iff_of_false (fun same => List.cons_ne_self _ _ same.1.symm)
      fun same => Option.some_ne_none _ same.1.symm
  · rw [SameScan, scan_of_token token ((step_move ne).ne_endOfSource token),
      scan_of_silent token', advance]
    exact iff_of_false (fun same => List.cons_ne_self _ _ same.1)
      fun same => Option.some_ne_none _ same.1
  · rw [SameScan, scan_of_token token ((step_move ne).ne_endOfSource token),
      scan_of_token token' ((step_move ne').ne_endOfSource token'), advance, place,
      List.append_cancel_right_eq, found]
    simp

/-- A lexer that takes some characters knows from them whether a line starts. -/
theorem advance_eq_of_taken (rest : a.rest = b.rest) (offset : a.offset = b.offset)
    (settings : a.settings = b.settings) (h : HeredocBody.SameTaken a.step b.step) :
    a.advance = b.advance := by
  obtain ⟨n, length⟩ := Nat.exists_eq_succ_of_ne_zero (Nat.ne_of_gt h.pos)
  simp only [advance, take, h.length, h.context, rest, offset, settings, length]

/-! ## Closing labels that are none -/

/-- In a body no token is the end of one. -/
theorem ne_heredocEnd (ne : lexer.rest ≠ []) (body : lexer.context.mode.isBody)
    {kind : TokenKind} {value : TokenValue} (made : lexer.step.token = some (kind, value)) :
    kind ≠ .heredocEnd := by
  cases step_move ne with
  | token token pos le turn =>
    obtain ⟨rfl, rfl⟩ := Step.token_inj token made
    exact turn.kind_ne.2.1
  | opensBody code =>
    rw [code] at body
    cases body
  | reachesLabel body held le front indent token =>
    rcases token with ⟨token, -⟩ | ⟨value, token, -⟩
    · rw [token] at made
      cases made
    · obtain ⟨rfl, rfl⟩ := Step.token_inj token made
      exact nofun
  | closesBody mode =>
    rw [mode] at body
    cases body
  | leaves free token | looksOn mode token =>
    rw [token] at made
    cases made

/-- A lexer that goes to a closing label makes the end of the heredoc next. -/
theorem next_of_closing {indent : Nat}
    (h : lexer.step =
      { Step.silent lexer.context with length := indent }.enter .closingLabel)
    (ne : lexer.rest.drop indent ≠ []) : ∃ length value,
      lexer.next.token = ⟨.heredocEnd, ⟨lexer.offset + indent, length⟩, value⟩ := by
  have rest : lexer.advance.rest = lexer.rest.drop indent := by
    change lexer.rest.drop lexer.step.length = _
    rw [h, Step.length_change]
  have mode : lexer.advance.context.mode = .closingLabel := by
    change lexer.step.context.mode = _
    rw [h]
    rfl
  have offset : lexer.advance.offset = lexer.offset + indent := by
    change lexer.offset + lexer.step.length = _
    rw [h, Step.length_change]
  rw [next_of_silent (by rw [h]; rfl), ← offset]
  cases step_move (rest ▸ ne) with
  | token token pos le turn => exact absurd mode turn.mode_ne_closingLabel
  | opensBody code =>
    rw [mode] at code
    cases code
  | reachesLabel body =>
    rw [mode] at body
    cases body
  | closesBody mode token => exact ⟨_, _, by rw [next_of_token token, span]⟩
  | leaves free =>
    rw [mode] at free
    rcases free with free | free | ⟨free, -⟩ <;> cases free
  | looksOn free =>
    rw [mode] at free
    cases free

/-- What looks like a closing label in the middle of a line makes a resumed lexer close the body,
which the other one does not do there. -/
theorem not_sameScan_of_closing {label : String} {indent : Nat} (named : lexer.context.Named)
    (lineStart : lexer.lineStart = false) (body : lexer.context.mode.isBody)
    (held : lexer.context.label = some label)
    (h : Heredoc.closingIndent? label.toList lexer.rest = some indent) :
    ¬{ lexer with lineStart := true }.SameScan lexer := by
  obtain ⟨indentEq, front⟩ := Heredoc.closingIndent?_eq_some h
  rw [← drop_length_takeWhile, ← indentEq] at front
  have ahead : lexer.rest.drop indent ≠ [] := by
    intro nil
    rw [nil, List.prefix_nil] at front
    exact named label held front
  have ne : lexer.rest ≠ [] := by
    intro nil
    rw [nil] at ahead
    exact ahead List.drop_nil
  -- the resumed lexer goes to the label and ends the body there
  have resumedStep : { lexer with lineStart := true }.step =
      { Step.silent lexer.context with length := indent }.enter .closingLabel := by
    rw [@step_body { lexer with lineStart := true } body ne]
    exact HeredocBody.bodyStep_closing lexer.settings held h
  obtain ⟨length, value, closes⟩ := next_of_closing resumedStep ahead
  -- the other one makes another token there, or none up to a later place
  intro same
  obtain ⟨later, tokens⟩ := scan_tokens_eq { lexer with lineStart := true }
  obtain ⟨later', tokens'⟩ := scan_tokens_eq lexer
  have first := (List.cons.inj (tokens.symm.trans (same.1.trans tokens'))).1
  rw [closes] at first
  rcases token : lexer.step.token with _ | ⟨kind, value⟩
  · have step := step_body body ne
    rw [lineStart] at step
    have far := HeredocBody.bodyStep_silent lexer.settings held (step ▸ token)
    have start := congrArg (fun token : Token => token.span.start) first
    rw [next_of_silent token] at start
    have le : lexer.offset + lexer.step.length ≤ _ := offset_le_next lexer.advance
    rw [← step, ← indentEq] at far
    dsimp only at start
    omega
  · rw [next_of_token token] at first
    exact ne_heredocEnd ne body token (congrArg Token.kind first).symm

/-! ## When resuming goes well -/

/-- A lexer that reads the same if it is resumed where it is. -/
inductive ResumesAlike : Lexer → Prop where
  /-- a line starts here -/
  | lineStart {lexer : Lexer} (h : lexer.lineStart) : lexer.ResumesAlike
  | ended {lexer : Lexer} (h : lexer.rest = []) : lexer.ResumesAlike
  /-- the next character is read in a mode that does not ask for the start of a line -/
  | taken {lexer : Lexer} (outside : ¬lexer.context.mode.isBody) (pos : 0 < lexer.step.length) :
    lexer.ResumesAlike
  /-- the mode has no use for the next character, and in the enclosing one all is well -/
  | passed {lexer : Lexer} (outside : lexer.context.mode.isBody → lexer.context.label = none)
    (zero : lexer.step.length = 0) (later : lexer.advance.ResumesAlike) : lexer.ResumesAlike
  /-- the body goes on alike -/
  | body {lexer : Lexer} {label : String} (body : lexer.context.mode.isBody)
    (held : lexer.context.label = some label)
    (h : HeredocBody.ReadsAlike lexer.context.mode label.toList lexer.rest) : lexer.ResumesAlike

namespace ResumesAlike

variable {label : String}

/-- In a mode that is left without a character it is the enclosing one that counts. -/
theorem passed_iff (ne : lexer.rest ≠ []) (middle : lexer.lineStart = false)
    (outside : lexer.context.mode.isBody → lexer.context.label = none)
    (zero : lexer.step.length = 0) : lexer.ResumesAlike ↔ lexer.advance.ResumesAlike := by
  refine ⟨fun alike => ?_, .passed outside zero⟩
  cases alike with
  | lineStart h =>
    rw [middle] at h
    cases h
  | ended nil => exact absurd nil ne
  | taken _ pos => exact absurd zero (Nat.ne_of_gt pos)
  | passed _ _ later => exact later
  | body body held =>
    rw [outside body] at held
    cases held

/-- In a body it is the fragment in front. -/
theorem body_iff (ne : lexer.rest ≠ []) (middle : lexer.lineStart = false)
    (body : lexer.context.mode.isBody) (held : lexer.context.label = some label) :
    lexer.ResumesAlike ↔
      HeredocBody.ReadsAlike lexer.context.mode label.toList lexer.rest := by
  refine ⟨fun alike => ?_, .body body held⟩
  cases alike with
  | lineStart h =>
    rw [middle] at h
    cases h
  | ended nil => exact absurd nil ne
  | taken outside => exact absurd body outside
  | passed outside =>
    rw [outside body] at held
    cases held
  | body _ held' h =>
    obtain rfl := Option.some.inj (held.symm.trans held')
    exact h

end ResumesAlike

/-- In a body the scans are the same exactly if the fragment in front reads the same. -/
theorem sameScan_iff_of_body {label : String} (named : lexer.context.Named) (ne : lexer.rest ≠ [])
    (middle : lexer.lineStart = false) (body : lexer.context.mode.isBody)
    (held : lexer.context.label = some label) :
    { lexer with lineStart := true }.SameScan lexer ↔
      HeredocBody.ReadsAlike lexer.context.mode label.toList lexer.rest := by
  rcases closing : Heredoc.closingIndent? label.toList lexer.rest with _ | indent
  · obtain ⟨taken, same⟩ := HeredocBody.bodyStep_alike lexer.settings held ne closing
    have step := step_body body ne
    rw [middle] at step
    have resumedStep := @step_body { lexer with lineStart := true } body ne
    rw [← step, ← resumedStep] at taken same
    have place : { lexer with lineStart := true }.span = lexer.span := by
      rw [span, span, taken.length]
    have agree : { lexer with lineStart := true }.advance = lexer.advance :=
      advance_eq_of_taken rfl rfl rfl taken
    exact (@sameScan_iff_of_advance_eq { lexer with lineStart := true } lexer
      ne ne place agree).trans same
  · have differ := not_sameScan_of_closing named middle body held closing
    refine iff_of_false differ fun reads => ?_
    rw [reads.1] at closing
    cases closing

/-- A resumed lexer goes on like the one that was stopped exactly if that one `ResumesAlike`. -/
theorem sameScan_iff (named : lexer.context.Named) :
    { lexer with lineStart := true }.SameScan lexer ↔ lexer.ResumesAlike := by
  induction lexer using step_induction with
  | nil lexer nil =>
    refine iff_of_true ?_ (.ended nil)
    rw [SameScan, scan_of_nil nil, @scan_of_nil { lexer with lineStart := true } nil]
    exact ⟨rfl, rfl⟩
  | step lexer ne ih =>
    rcases middle : lexer.lineStart with _ | _
    case true =>
      refine iff_of_true ?_ (.lineStart middle)
      rw [← middle]
      exact ⟨rfl, rfl⟩
    have ih := ih ((step_move ne).named named)
    -- a step that takes nothing and is the same leaves both lexers where they are
    have passes (same : { lexer with lineStart := true }.step = lexer.step)
        (outside : lexer.context.mode.isBody → lexer.context.label = none)
        (zero : lexer.step.length = 0) :
        { lexer with lineStart := true }.SameScan lexer ↔ lexer.ResumesAlike := by
      have place : { lexer with lineStart := true }.span = lexer.span := by
        rw [span, span, same]
      have advance : { lexer with lineStart := true }.advance =
          { lexer.advance with lineStart := true } := by
        simp only [Lexer.advance, take, same, zero]
      rw [sameScan_iff_of_step_eq ne place same, advance, ih,
        ResumesAlike.passed_iff ne middle outside zero]
    by_cases body : lexer.context.mode.isBody
    · rcases held : lexer.context.label with _ | label
      · have silent := step_of_label_eq_none ne body held
        refine passes ?_ (fun _ => held) (by rw [silent]; rfl)
        rw [silent]
        exact @step_of_label_eq_none { lexer with lineStart := true } ne body held
      · rw [ResumesAlike.body_iff ne middle body held]
        exact sameScan_iff_of_body named ne middle body held
    · have same := step_lineStart true body
      rcases Nat.eq_zero_or_pos lexer.step.length with zero | pos
      · exact passes same (fun inside => absurd inside body) zero
      · refine iff_of_true ?_ (.taken body pos)
        have agree : { lexer with lineStart := true }.advance = lexer.advance :=
          advance_eq_of_taken rfl rfl rfl ⟨by rw [same], pos, by rw [same]⟩
        have place : { lexer with lineStart := true }.span = lexer.span := by
          rw [span, span, same]
        refine (@sameScan_iff_of_advance_eq { lexer with lineStart := true } lexer
          ne ne place agree).2 ?_
        rw [same]
        exact ⟨rfl, rfl⟩

theorem named_after (settings : Settings) (source : List Char) (shift : Nat) (mode : Mode)
    (count : Nat) : ((start settings source shift { mode }).after count).context.Named := by
  refine after_of_advance (motive := fun lexer => lexer.context.Named) (fun lexer named => ?_) count
    nofun
  by_cases nil : lexer.rest = []
  · rwa [advance_of_nil nil]
  · exact (step_move nil).named named

/-- **When resuming is the same as not stopping.** Wherever a lexer stops after a number of tokens,
a lexer over the rest of the source that is given the offset and the context makes the same tokens
and diagnostics exactly if the lexer `ResumesAlike`. -/
theorem resume_sameScan_iff (settings : Settings) (source : List Char) (shift : Nat) (mode : Mode)
    (count : Nat) :
    (resume settings source shift ((start settings source shift { mode }).after count)).SameScan
        ((start settings source shift { mode }).after count) ↔
      ((start settings source shift { mode }).after count).ResumesAlike := by
  rw [(within_after { mode } count).resume_eq]
  exact sameScan_iff (named_after settings source shift mode count)

/-- After a variable in the middle of a line of a heredoc comes a blank and what looks like the
closing label. A lexer that is resumed there closes the heredoc. -/
theorem resume_not_sameScan :
    ((start {} "<?php <<<E\n$a E\nE;".toList).after 3).context.mode = .heredoc ∧
    ¬(resume {} "<?php <<<E\n$a E\nE;".toList 0
        ((start {} "<?php <<<E\n$a E\nE;".toList).after 3)).SameScan
      ((start {} "<?php <<<E\n$a E\nE;".toList).after 3) := by
  have stopped : (start {} "<?php <<<E\n$a E\nE;".toList).after 3 =
      { settings := {}
        rest := " E\nE;".toList
        offset := 13
        lineStart := false
        context := { mode := .heredoc, enclosing := [.code], label := some "E" } } := by
    rw [after_succ_of_token (by decide +kernel), after_succ_of_token (by decide +kernel),
      after_succ_of_token (by decide +kernel)]
    decide +kernel
  rw [(within_after {} 3).resume_eq, stopped]
  refine ⟨rfl, @not_sameScan_of_closing _ "E" 1 ?_ rfl rfl rfl ?_⟩
  · intro label held
    obtain rfl := Option.some.inj held
    decide
  · decide

end PhpFrontEnd.Lexer
