import PhpFrontEnd.Proofs.LineStart
import PhpFrontEnd.Proofs.Values

/-!
# Where problems are found

A step finds problems with the characters it takes, and with nothing else. So a diagnostic stands
at a token, the one that the step makes, and it is clear from the problem which kinds of tokens
that can be (`LexError.FoundWith`). What a problem quotes is the source text of that token.

There is one kind of step for which this is not plain: the last fragment of a heredoc may make no
token, and its indentation is checked all the same. But it makes none only if nothing is left of
it, and then no line of it has content that could be indented too little
(`Heredoc.dedentLast_wrong_of_nil`).

Diagnostics therefore come in the order of the tokens, and a bad character is reported exactly once
(`Lexer.calls_pointAtTokens`).
-/

namespace PhpFrontEnd

/-! ## Problems and tokens -/

/-- Whether a problem is that of a bad character. -/
def LexError.isUnexpectedCharacter : LexError → Bool
  | .unexpectedCharacter _ => true
  | _ => false

/-- The tokens that a problem is found with. A problem that quotes something quotes the characters
`taken` by the token; a comment without an end goes on to the end of the source, at `stop`. -/
def LexError.FoundWith (token : Token) (taken : List Char) (stop : Nat) : LexError → Prop
  | .unexpectedCharacter c => token.kind = .badCharacter ∧ taken = [c]
  | .heredocIndentation => token.kind = .textRun
  | .invalidNumber literal =>
    token.kind ∈ [.integer, .wideInteger, .real] ∧ literal = String.ofList taken
  | .unterminatedComment start =>
    token.kind ∈ [.comment, .docComment] ∧ start = token.span.start ∧
      token.span.start + token.span.length = stop
  | .integerTooBig literal | .realTooBig literal =>
    token.kind = .real ∧ literal = String.ofList taken
  | .invalidCodePoint literal =>
    token.kind ∈ [.quotedLiteral, .textRun] ∧ literal = String.ofList taken

/-- A step, `start` characters from the beginning of the source, that finds problems with its token
only. With a bad character it finds that one problem. -/
structure Step.Reports (step : Step) (start : Nat) (text : List Char) : Prop where
  found : ∀ e ∈ step.errors, ∃ kind value, step.token = some (kind, value) ∧
    e.FoundWith ⟨kind, ⟨start, step.length⟩, value⟩ (text.take step.length) (start + text.length)
  unexpected : ∀ value, step.token = some (.badCharacter, value) →
    ∃ c, step.errors = [.unexpectedCharacter c]

variable {settings : Settings} {context : Context} {offset : Nat} {text taken : List Char}

namespace Step

variable {step : Step} {kind : TokenKind} {value : TokenValue} {length : Nat}

/-- Most tokens cannot be wrong in any way. -/
theorem reports_of_clean (clean : step.errors = [])
    (ne : ∀ value, step.token ≠ some (.badCharacter, value)) : step.Reports offset text := by
  refine ⟨fun e mem => ?_, fun value bad => absurd bad (ne value)⟩
  rw [clean] at mem
  cases mem

/-- Problems that fit the token of a step are reported at it. -/
theorem reports_of_token (token : step.token = some (kind, value)) (ne : kind ≠ .badCharacter)
    (front : text.take step.length = taken)
    (found : ∀ e ∈ step.errors,
      e.FoundWith ⟨kind, ⟨offset, step.length⟩, value⟩ taken (offset + text.length)) :
    step.Reports offset text := by
  refine ⟨fun e mem => ⟨kind, value, token, front ▸ found e mem⟩, fun value' bad => ?_⟩
  exact absurd (Step.token_inj token bad).1 ne

/-- A change of modes makes no difference to what a step reports. -/
theorem Reports.change {change : ModeChange} (h : step.Reports offset text) :
    (step.change change).Reports offset text :=
  ⟨h.found, h.unexpected⟩

theorem reports_emit (ne : kind ≠ .badCharacter) : (emit context kind length).Reports offset text :=
  reports_of_clean rfl fun _ bad => ne (Prod.mk.inj (Option.some.inj bad)).1

theorem reports_emitShared (ne : kind ≠ .badCharacter) :
    (emitShared context kind length taken).Reports offset text :=
  reports_of_clean rfl fun _ bad => ne (Prod.mk.inj (Option.some.inj bad)).1

theorem reports_emitText (ne : kind ≠ .badCharacter) :
    (emitText context kind taken).Reports offset text :=
  reports_of_clean rfl fun _ bad => ne (Prod.mk.inj (Option.some.inj bad)).1

theorem reports_silent : (silent context).Reports offset text :=
  reports_of_clean rfl fun _ bad => by cases bad

/-- An escape without a character is quoted by the source text around it. -/
theorem eq_of_mem_errors {decoded : Decoded} {e : LexError} (mem : e ∈ decoded.errors taken) :
    e = .invalidCodePoint (String.ofList taken) := by
  unfold Decoded.errors at mem
  split at mem
  · exact List.mem_singleton.1 mem
  · cases mem

/-- A literal may have a code point in it that is none. -/
theorem reports_emitLiteral (quote : Quote) (decoded : Decoded) (front : taken <+: text) :
    (emitLiteral context quote taken decoded).Reports offset text := by
  refine reports_of_token rfl (by simp) (List.prefix_iff_eq_take.1 front).symm fun e mem => ?_
  rw [eq_of_mem_errors mem]
  exact ⟨by simp, rfl⟩

/-- A run may have such a code point in it, and may be indented too little. -/
theorem reports_emitRun (dedented : Heredoc.Dedented) (decoded : Decoded) (front : taken <+: text) :
    { emitRun context taken decoded with
      errors := dedented.errors ++ decoded.errors taken }.Reports offset text := by
  refine reports_of_token rfl (by simp) (List.prefix_iff_eq_take.1 front).symm fun e mem => ?_
  rcases List.mem_append.1 mem with mem | mem
  · unfold Heredoc.Dedented.errors at mem
    split at mem
    · rw [List.mem_singleton.1 mem]
      rfl
    · cases mem
  · rw [eq_of_mem_errors mem]
    exact ⟨by simp, rfl⟩

end Step

/-! ## Indentation -/

namespace Heredoc

/-- Only lines with content can be indented too little. -/
theorem exists_content_of_resolve_error {source : List Char} {lineStart : Bool}
    {mismatch : IndentationMismatch} (h : resolve source lineStart = .error mismatch) :
    ∃ line ∈ (Lines.of source).complete, ∃ c ∈ line, isContent c := by
  unfold resolve at h
  dsimp only at h
  rcases indents : (if lineStart then (Lines.of source).complete
      else (Lines.of source).complete.drop 1).filterMap indentOf? with _ | ⟨indent, more⟩
  · rw [indents] at h
    cases h
  · obtain ⟨line, mem, some⟩ :=
      List.mem_filterMap.1 (indents ▸ List.mem_cons_self : indent ∈ List.filterMap indentOf? _)
    have complete : line ∈ (Lines.of source).complete := by
      split at mem
      · exact mem
      · exact List.mem_of_mem_drop mem
    unfold indentOf? at some
    split at some
    · rename_i content
      exact ⟨line, complete, List.any_eq_true.1 content⟩
    · cases some

/-- If nothing is left of a fragment, its indentation was right. -/
theorem dedentLast_wrong_of_nil {source : List Char} {lineStart : Bool}
    (nil : (dedentLast source lineStart).body = []) :
    (dedentLast source lineStart).wrong = false := by
  unfold dedentLast at nil ⊢
  split at nil
  · rfl
  · rename_i mismatch error
    obtain ⟨line, mem, c, inLine, content⟩ := exists_content_of_resolve_error error
    simp only [isContent, Bool.and_eq_true, Bool.not_eq_true', bne_iff_ne] at content
    have kept : c ∈ dedent (finalBody source) lineStart mismatch.shared :=
      mem_dedentFrom (mem_finalBody_of_line mem inLine content.2) (by simp [content.1])
    change dedent (finalBody source) lineStart mismatch.shared = [] at nil
    rw [nil] at kept
    cases kept

end Heredoc

/-! ## Markup, numbers and interpolations -/

/-- Nothing can be wrong with markup. -/
theorem Markup.AtMarkup.reports {step : Step} (h : AtMarkup settings context text step) :
    step.Reports offset text := by
  cases h with
  | tag front =>
    refine .change (Step.reports_emit ?_)
    rcases openTagAt?_kind front with rfl | rfl <;> simp
  | run => exact Step.reports_emitText (by simp)

namespace Number

/-- What is wrong with a number quotes its literal: a digit that is not an octal one, or a value
that is too big. -/
theorem Makes.reports {literal : List Char} {step : Step} (h : Makes context literal step)
    (front : literal <+: text) : step.Reports offset text := by
  have taken := (List.prefix_iff_eq_take.1 front).symm
  cases h with
  | @word _ _ value errors _ _ invalid =>
    obtain ⟨read, h | h⟩ := integerToken_eq .integer .wideInteger value <;>
      refine Step.reports_of_token (congrArg some h) (by simp) taken fun e mem => ?_ <;>
      rw [invalid e mem] <;>
      exact ⟨by simp, rfl⟩
  | tooBig invalid =>
    refine Step.reports_of_token rfl (by simp) taken fun e mem => ?_
    rcases List.mem_append.1 mem with mem | mem
    · rw [invalid e mem]
      exact ⟨by simp, rfl⟩
    · rw [List.mem_singleton.1 mem]
      exact ⟨rfl, rfl⟩
  | real =>
    refine Step.reports_of_token rfl (by simp) taken fun e mem => ?_
    unfold emitReal at mem
    dsimp only at mem
    split at mem
    · rw [List.mem_singleton.1 mem]
      exact ⟨rfl, rfl⟩
    · cases mem

theorem MakesKey.reports {digits : List Char} {step : Step} (h : MakesKey context digits step) :
    step.Reports offset text := by
  cases h with
  | padded | tooBig => exact Step.reports_emitShared (by simp)
  | @word value =>
    refine Step.reports_of_clean rfl fun _ bad => ?_
    obtain ⟨read, h | h⟩ := integerToken_eq .offsetNumber .offsetNumber value
    · rw [h] at bad
      cases bad
    · rw [h] at bad
      cases bad

end Number

namespace Interpolation

theorem AtStart.reports {step : Step} (h : AtStart context text step) :
    step.Reports offset text := by
  have plain : (emitVariable context text).Reports offset text :=
    Step.reports_emitShared (by simp)
  cases h with
  | dollarBrace | brace => exact .change (Step.reports_emit (by simp))
  | element | property => exact plain.change
  | plain => exact plain

theorem AtProperty.reports {step : Step} (h : AtProperty context text step) :
    step.Reports offset text := by
  cases h with
  | blanks | arrow | nullsafeArrow => exact Step.reports_emit (by simp)
  | name => exact .change (Step.reports_emitShared (by simp))
  | other => exact .change Step.reports_silent

theorem AtVariableName.reports {step : Step} (h : AtVariableName context text step) :
    step.Reports offset text := by
  cases h with
  | name => exact .change (.change (Step.reports_emitShared (by simp)))
  | other => exact .change (.change Step.reports_silent)

/-- Nothing can be wrong with an offset, apart from what belongs elsewhere. -/
theorem AtOffset.reports {step : Step} (h : AtOffset context text step) :
    step.Reports offset text := by
  cases h with
  | bracket | minus => exact Step.reports_emit (by simp)
  | closing => exact .change (Step.reports_emit (by simp))
  | dollar | name => exact Step.reports_emitShared (by simp)
  | number _ makes => exact makes.reports
  | other => exact .change Step.reports_silent

end Interpolation

/-! ## Strings and heredocs -/

namespace Quoted

/-- A closed string may have a code point in it that is none. -/
theorem AtQuote.reports {before : Nat} {step : Step}
    (h : AtQuote settings context text before step) : step.Reports offset text := by
  cases h with
  | closed => exact Step.reports_emitLiteral _ _ (List.take_prefix _ _)
  | single | double => exact .change (Step.reports_emit (by simp))

/-- In a string that is read in pieces only its runs can be wrong. -/
theorem InQuotes.reports {quote : Char} {kind : TokenKind} {mode : EscapeMode}
    {interpolates : Bool} {step : Step}
    (h : InQuotes settings context quote kind mode interpolates text step)
    (ne : kind ≠ .badCharacter) : step.Reports offset text := by
  cases h with
  | closing => exact .change (Step.reports_emit ne)
  | interpolation _ _ front => exact front.reports
  | run => exact Step.reports_emitRun ⟨false, []⟩ _ (List.take_prefix _ _)

end Quoted

namespace HeredocBody

theorem openingStep?_reports {before : Nat} {step : Step}
    (h : openingStep? context text before = some step) : step.Reports offset text := by
  obtain ⟨opening, -, rfl⟩ := Option.map_eq_some_iff.1 h
  exact .change (Step.reports_emitShared (by simp))

/-- The last fragment of a body may be indented too little, and then it is a token. -/
theorem closeStep_reports (isNowdoc lineStart : Bool) {source : List Char}
    (front : source <+: text) :
    (closeStep settings context isNowdoc lineStart source).Reports offset text := by
  rw [closeStep_eq]
  dsimp only
  split
  · rename_i nil
    have right := Heredoc.dedentLast_wrong_of_nil (List.isEmpty_iff.1 nil)
    rw [Heredoc.Dedented.errors, right]
    exact Step.reports_of_clean rfl fun _ bad => by cases bad
  · exact .change (Step.reports_emitRun _ _ front)

/-- In a body only its fragments can be wrong. -/
theorem AtBody.reports {lineStart isNowdoc : Bool} {step : Step}
    (h : AtBody settings context lineStart text isNowdoc step) : step.Reports offset text := by
  cases h with
  | unlabelled => exact .change Step.reports_silent
  | closes => exact closeStep_reports _ _ (List.take_prefix _ _)
  | interpolates => exact (Interpolation.atStart context text).reports
  | fragment =>
    rw [fragmentStep_eq]
    exact Step.reports_emitRun _ _ (List.take_prefix _ _)
  | source => exact Step.reports_emitRun ⟨false, []⟩ _ (List.prefix_refl _)

/-- Nothing is wrong with a closing label, not even that it is missing. -/
theorem AtClosing.reports {step : Step} (h : AtClosing context text step) :
    step.Reports offset text := by
  cases h with
  | gone => exact .change (Step.reports_emit (by simp))
  | label => exact Step.reports_of_clean rfl fun _ bad => by cases bad

end HeredocBody

/-! ## Code -/

namespace Code

/-- A character that begins nothing is a token by itself. -/
theorem AtMark.reports {step : Step} (h : AtMark context text step) :
    step.Reports offset text := by
  cases h with
  | mark =>
    refine Step.reports_of_clean ?_ fun value bad => ?_
    · rw [errors_afterMark]
      rfl
    · rw [token_afterMark] at bad
      cases bad
  | @bad c front =>
    refine ⟨fun e mem => ⟨.badCharacter, .none, rfl, ?_⟩, fun value bad => ⟨c, rfl⟩⟩
    rw [List.mem_singleton.1 mem]
    exact ⟨rfl, (List.prefix_iff_eq_take.1 front).symm⟩

theorem AtName.reports {step : Step} (h : AtName context text step) :
    step.Reports offset text := by
  cases h with
  | word isWord =>
    refine Step.reports_emitShared ?_
    obtain rfl | ⟨keyword, rfl⟩ := isWord <;> simp
  | yieldFrom => exact Step.reports_of_clean rfl fun _ bad => by cases bad

/-- A comment without an end takes all that is left. -/
theorem AtBlockComment.reports {step : Step} (h : AtBlockComment context offset text step) :
    step.Reports offset text := by
  cases h with
  | plain front _ found | doc front _ found =>
    have taken := (List.prefix_iff_eq_take.1 front).symm
    refine Step.reports_of_token rfl (by simp) taken fun e mem => ?_
    obtain ⟨rfl, rfl⟩ := found e mem
    exact ⟨by simp, rfl, rfl⟩

/-- Every step in code finds problems with its own token only. -/
theorem AtCode.reports {step : Step} (h : AtCode settings context offset text step) :
    step.Reports offset text := by
  cases h with
  | attributeOpen | separator | cast | whitespace => exact Step.reports_emit (by simp)
  | closeTag | backquote => exact .change (Step.reports_emit (by simp))
  | lineComment => exact Step.reports_emitText (by simp)
  | blockComment comment => exact comment.reports
  | quote _ quoted => exact quoted.reports
  | heredoc _ opening => exact HeredocBody.openingStep?_reports opening
  | dollar => exact Step.reports_emitShared (by simp)
  | number front =>
    obtain ⟨literal, -, isPrefix, makes⟩ := Number.exists_makes context front
    exact makes.reports isPrefix
  | name _ named => exact named.reports
  | mark marked => exact marked.reports

end Code

/-! ## Lexers -/

namespace Lexer

variable {lexer : Lexer}

/-- Every step finds problems with its own token only. -/
theorem step_reports (lexer : Lexer) : lexer.step.Reports lexer.offset lexer.rest := by
  by_cases nil : lexer.rest = []
  · rw [step_of_rest_eq_nil nil]
    exact Step.reports_emit (by simp)
  rw [step_eq nil]
  cases lexer.context.mode with
  | markup => exact (Markup.atMarkup ..).reports
  | code => exact (Code.atCode _ _ _ nil).reports
  | doubleQuoted | backquoted => exact (Quoted.inInterpolated ..).reports (by simp)
  | singleQuoted => exact (Quoted.inSingleQuoted ..).reports (by simp)
  | heredoc => exact HeredocBody.atBody_heredoc.reports
  | nowdoc => exact HeredocBody.atBody_nowdoc.reports
  | closingLabel => exact (HeredocBody.atClosing ..).reports
  | property => exact (Interpolation.atProperty ..).reports
  | variableName => exact (Interpolation.atVariableName ..).reports
  | offset => exact (Interpolation.atOffset ..).reports

/-- A step without a token finds nothing. -/
theorem found_of_silent (silent : lexer.step.token = none) : lexer.found = [] := by
  refine List.map_eq_nil_iff.2 (List.eq_nil_iff_forall_not_mem.2 fun e mem => ?_)
  obtain ⟨kind, value, token, -⟩ := lexer.step_reports.found e mem
  rw [silent] at token
  cases token

/-- The first calls for a token. -/
def calls : (count : Nat) → Lexer → List Scanned
  | 0, _ => []
  | count + 1, lexer => lexer.next :: calls count lexer.next.lexer

end Lexer

/-! ## Calls -/

/-- What the calls for the tokens of a source report. The source begins at an offset. -/
structure PointsAtTokens (offset : Nat) (source : List Char) (calls : List Scanned) : Prop where
  /-- The token of a call is what its diagnostics are about. -/
  found : ∀ call ∈ calls, ∀ d ∈ call.diagnostics, d.span = call.token.span ∧
    d.error.FoundWith call.token (call.token.span.slice offset source) (offset + source.length)
  /-- Diagnostics come in the order of spans, and those of different calls do not overlap. -/
  ordered : (calls.flatMap (·.diagnostics)).Pairwise fun a b => compare a.span b.span ≠ .gt ∧
    (a.span = b.span ∨ a.span.start + a.span.length ≤ b.span.start)
  /-- No diagnostic reaches out of the source. -/
  inside : ∀ d ∈ calls.flatMap (·.diagnostics), offset ≤ d.span.start ∧
    d.span.start + d.span.length ≤ offset + source.length
  /-- Each bad character is reported once. -/
  unexpected : ((calls.flatMap (·.diagnostics)).filter (·.error.isUnexpectedCharacter)).map
      (·.span) = ((calls.map (·.token)).filter (·.kind == .badCharacter)).map (·.span)

/-- A span that ends before another begins comes first. -/
theorem Span.compare_ne_gt {a b : Span} (h : a = b ∨ a.start + a.length ≤ b.start) :
    compare a b ≠ .gt := by
  have unfolded : compare a b = (compare a.start b.start).then (compare a.length b.length) := rfl
  rw [unfolded]
  rcases h with rfl | le
  · simp
  · rcases Nat.lt_or_eq_of_le (Nat.le_of_add_right_le le) with lt | eq
    · simp [Nat.compare_eq_lt.2 lt]
    · -- they begin at the same place, and the first one is empty
      have empty : a.length = 0 := by omega
      rw [Nat.compare_eq_eq.2 eq, empty]
      exact Nat.compare_ne_gt.2 (Nat.zero_le _)

namespace Lexer

variable {lexer : Lexer} {source : List Char} {shift : Nat}

/-- The diagnostics of a call are about the token that it returns. -/
theorem next_found (within : lexer.Within settings source shift)
    (stop : lexer.stop = shift + source.length) :
    ∀ d ∈ lexer.next.diagnostics, d.span = lexer.next.token.span ∧
      d.error.FoundWith lexer.next.token (lexer.next.token.span.slice shift source)
        (shift + source.length) := by
  induction lexer using step_induction with
  | nil lexer nil =>
    rw [(next_of_nil nil).1, next_of_token (step_token_of_rest_eq_nil nil)]
    obtain ⟨settings, rest, offset, lineStart, context⟩ := lexer
    cases nil
    exact nofun
  | step lexer ne ih =>
    rcases token : lexer.step.token with _ | ⟨kind, value⟩
    · rw [next_of_silent token, found_of_silent token]
      exact ih within.advance (lexer.stop_advance.trans stop)
    · rw [next_of_token token]
      intro d mem
      obtain ⟨e, error, rfl⟩ := List.mem_map.1 mem
      obtain ⟨kind', value', token', found⟩ := lexer.step_reports.found e error
      obtain ⟨rfl, rfl⟩ := Step.token_inj token token'
      have slice : lexer.span.slice shift source = lexer.rest.take lexer.step.length := by
        rw [within.rest_eq]
        rfl
      refine ⟨rfl, ?_⟩
      rw [slice, ← stop]
      exact found

/-- A call reports a bad character exactly if it returns one. -/
theorem next_unexpected (lexer : Lexer) :
    (lexer.next.diagnostics.filter (·.error.isUnexpectedCharacter)).map (·.span) =
      ([lexer.next.token].filter (·.kind == .badCharacter)).map (·.span) := by
  induction lexer using step_induction with
  | nil lexer nil =>
    rw [next_of_token (step_token_of_rest_eq_nil nil)]
    obtain ⟨settings, rest, offset, lineStart, context⟩ := lexer
    cases nil
    rfl
  | step lexer ne ih =>
    rcases token : lexer.step.token with _ | ⟨kind, value⟩
    · rw [next_of_silent token, found_of_silent token]
      exact ih
    · rw [next_of_token token]
      dsimp only
      by_cases bad : kind = .badCharacter
      · obtain ⟨c, errors⟩ := lexer.step_reports.unexpected value (bad ▸ token)
        rw [found, errors, bad]
        rfl
      · have clean : lexer.found.filter (·.error.isUnexpectedCharacter) = [] := by
          refine List.filter_eq_nil_iff.2 fun d mem unexpected => bad ?_
          obtain ⟨e, error, rfl⟩ := List.mem_map.1 mem
          obtain ⟨kind', value', token', found⟩ := lexer.step_reports.found e error
          obtain ⟨rfl, rfl⟩ := Step.token_inj token token'
          cases e <;> first | exact found.1 | cases unexpected
        simp [clean, bad]

/-- Calls go on from where the lexer is, and stay within the source. -/
theorem calls_within (lexer : Lexer) (count : Nat) : ∀ call ∈ lexer.calls count,
    lexer.offset ≤ call.token.span.start ∧
      call.token.span.start + call.token.span.length ≤ lexer.stop := by
  induction count generalizing lexer with
  | zero => exact fun _ mem => absurd mem List.not_mem_nil
  | succ count ih =>
    have starts := lexer.offset_le_next
    have ends := lexer.next_span_stop
    have stop := lexer.stop_next
    intro call mem
    rcases List.mem_cons.1 mem with rfl | mem
    · refine ⟨starts, ?_⟩
      rw [ends, ← stop]
      exact Nat.le_add_right _ _
    · have later := ih lexer.next.lexer call mem
      omega

/-- What the first calls for a token report. -/
theorem pointsAtTokens (within : lexer.Within settings source shift)
    (stop : lexer.stop = shift + source.length) (count : Nat) :
    PointsAtTokens shift source (lexer.calls count) := by
  induction count generalizing lexer with
  | zero =>
    rw [calls]
    exact ⟨fun _ mem => absurd mem List.not_mem_nil, .nil,
      fun _ mem => absurd mem List.not_mem_nil, rfl⟩
  | succ count ih =>
    have first := next_found within stop
    have later : PointsAtTokens shift source (lexer.next.lexer.calls count) :=
      ih (next_of_advance (fun _ h => h.advance) within) (lexer.stop_next.trans stop)
    -- a diagnostic stands where the token of its call does
    have place {d : Diagnostic} (mem : d ∈ (lexer.next.lexer.calls count).flatMap (·.diagnostics)) :
        lexer.next.lexer.offset ≤ d.span.start := by
      obtain ⟨call, inCalls, inCall⟩ := List.mem_flatMap.1 mem
      rw [(later.found call inCalls d inCall).1]
      exact (calls_within _ count call inCalls).1
    rw [calls]
    refine ⟨fun call mem => ?_, ?_, fun d mem => ?_, ?_⟩
    · rcases List.mem_cons.1 mem with rfl | mem
      · exact first
      · exact later.found call mem
    · rw [List.flatMap_cons, List.pairwise_append]
      refine ⟨List.pairwise_of_forall_mem_list fun a mem b mem' => ?_, later.ordered,
        fun a mem b mem' => ?_⟩
      · have same : a.span = b.span := (first a mem).1.trans (first b mem').1.symm
        exact ⟨Span.compare_ne_gt (.inl same), .inl same⟩
      · have before : a.span.start + a.span.length ≤ b.span.start := by
          rw [(first a mem).1, lexer.next_span_stop]
          exact place mem'
        exact ⟨Span.compare_ne_gt (.inr before), .inr before⟩
    · rw [List.flatMap_cons, List.mem_append] at mem
      rcases mem with mem | mem
      · obtain ⟨from_, to_⟩ := calls_within lexer 1 _ List.mem_cons_self
        rw [(first d mem).1, ← stop]
        exact ⟨within.shift_le.trans from_, to_⟩
      · exact later.inside d mem
    · rw [List.flatMap_cons, List.map_cons, List.filter_append, List.map_append, next_unexpected,
        later.unexpected, ← List.map_append, ← List.filter_append]
      rfl

/-- A scan consists of the calls up to the end token. -/
theorem exists_scan_eq_calls (lexer : Lexer) : ∃ count,
    lexer.scan.tokens = (lexer.calls count).map (·.token) ∧
      lexer.scan.diagnostics = (lexer.calls count).flatMap (·.diagnostics) := by
  induction lexer using call_induction with
  | ended lexer h =>
    refine ⟨1, ?_⟩
    rw [scan_of_next_end h]
    exact ⟨rfl, (List.append_nil _).symm⟩
  | call lexer h ih =>
    obtain ⟨count, tokens, diagnostics⟩ := ih
    refine ⟨count + 1, ?_⟩
    rw [scan_of_next h, calls, List.map_cons, List.flatMap_cons, tokens, diagnostics]
    exact ⟨rfl, rfl⟩

/-- **Diagnostics point at tokens.** However many tokens of a source are asked for, each diagnostic
comes with the call that returns the token it is about, and has the place of that token. So
diagnostics are in order and within the source, and there is one for each bad character. A scan is
made of such calls. -/
theorem calls_pointAtTokens (settings : Settings) (source : List Char) (shift : Nat)
    (context : Context) :
    (∀ count, PointsAtTokens shift source ((start settings source shift context).calls count)) ∧
    ∃ count, (start settings source shift context).scan.tokens =
        ((start settings source shift context).calls count).map (·.token) ∧
      (start settings source shift context).scan.diagnostics =
        ((start settings source shift context).calls count).flatMap (·.diagnostics) :=
  ⟨pointsAtTokens (within_start context) rfl, exists_scan_eq_calls _⟩

end Lexer

end PhpFrontEnd
