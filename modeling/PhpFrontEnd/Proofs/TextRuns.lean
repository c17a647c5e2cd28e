import PhpFrontEnd.Proofs.LineEndsInText
import PhpFrontEnd.Proofs.Modes
import PhpFrontEnd.Proofs.Neighbours

/-!
# Text runs are maximal

Markup outside of code, and text between the interpolations of a string, are read in runs. A run
goes on to what ends it: an opening tag; the closing quote, an interpolation or a closing label; or
the end of the source. What a step leaves in front of the lexer is the matter of one lemma for each
kind of text (`Markup.textLength_stops`, `Quoted.runLength_stops`, `AtBody.ends_textRun`), and then
the next step has no text to read (`Lexer.Keeps.next_of_textRun`).

Where an interpolation begins in a heredoc the next step tests once more for the closing label, so
there it is to be excluded that the test finds text before it (`fragment_of_startsAt`). Single
quotes are read in pieces only if they are not closed, and then there is one piece: that they are
not closed is kept from the opening quote on (`Lexer.Keeps`).
-/

namespace PhpFrontEnd

/-! ## Markup -/

namespace Markup

variable {settings : Settings} {text : List Char}

/-- The texts that begin with an opening tag. The long one is followed by a blank or by nothing, and
the short one has to be allowed. -/
inductive Opens (settings : Settings) : List Char → Prop where
  | echo (rest : List Char) : Opens settings ('<' :: '?' :: '=' :: rest)
  | long {rest : List Char} (php : startsWithIgnoringCase ['p', 'h', 'p'] rest)
      (ends : rest.drop 3 = [] ∨ nextIs isBlank (rest.drop 3)) :
      Opens settings ('<' :: '?' :: rest)
  | short (allowed : settings.shortTags) (rest : List Char) :
      Opens settings ('<' :: '?' :: rest)

/-- The lexer finds the tag that a text begins with. -/
theorem Opens.isSome (opens : Opens settings text) : (openTagAt? settings text).isSome := by
  cases opens with
  | echo rest => rfl
  | @long rest php ends =>
    rw [openTagAt?]
    split
    · rfl
    · split
      · rfl
      · rfl
      · rename_i c later _ after
        rw [after] at ends
        have blank : isBlank c := by simpa [nextIs] using ends
        rw [if_pos blank]
        rfl
  | short allowed rest =>
    rw [openTagAt?, if_pos allowed]
    split
    · rfl
    · split
      · split
        · rfl
        · rfl
        · split <;> rfl
      · rfl

/-- It finds no other. -/
theorem opens_of_isSome (found : (openTagAt? settings text).isSome) : Opens settings text := by
  unfold openTagAt? at found
  split at found
  · rename_i rest
    dsimp only at found
    have short (h : (if settings.shortTags then some (TokenKind.openTag, 2) else none).isSome) :
        Opens settings ('<' :: '?' :: rest) := by
      split at h
      · rename_i allowed
        exact .short allowed rest
      · cases h
    split at found
    · rename_i equals
      rcases rest with _ | ⟨c, rest⟩
      · cases equals
      · obtain rfl := eq_of_beq (equals : (c == '=') = true)
        exact .echo rest
    · split at found
      · rename_i php
        split at found
        · rename_i ends
          exact .long php (.inl ends)
        · rename_i ends
          exact .long php (.inr (by rw [ends]; rfl))
        · rename_i _ ends
          split at found
          · rename_i blank
            exact .long php (.inr (by rw [ends]; exact blank))
          · exact short found
      · exact short found
  · cases found

theorem opens_iff : Opens settings text ↔ (openTagAt? settings text).isSome :=
  ⟨Opens.isSome, opens_of_isSome⟩

/-- A run of markup ends at an opening tag or with the source. -/
theorem textLength_stops (settings : Settings) (text : List Char) :
    text.drop (textLength settings text) = [] ∨
      Opens settings (text.drop (textLength settings text)) := by
  induction text with
  | nil => exact .inl rfl
  | cons c rest ih =>
    rw [textLength]
    split
    · rename_i opens
      exact .inr (opens_iff.2 opens)
    · exact ih

/-- Only a run of markup is inline HTML. -/
theorem AtMarkup.inlineHtml {context : Context} {step : Step} {value : TokenValue}
    (h : AtMarkup settings context text step) (token : step.token = some (.inlineHtml, value)) :
    step = .emitText context .inlineHtml (text.take (textLength settings text)) := by
  cases h with
  | tag front =>
    obtain ⟨rfl, -⟩ := Step.token_inj rfl token
    rcases openTagAt?_kind front with eq | eq <;> cases eq
  | run => rfl

/-- No opening tag begins in a run of markup. -/
theorem not_opens_of_lt {i : Nat} (lt : i < textLength settings text) :
    ¬Opens settings (text.drop i) := by
  induction text generalizing i with
  | nil => exact absurd lt (Nat.not_lt_zero i)
  | cons c rest ih =>
    rw [textLength] at lt
    split at lt
    · exact absurd lt (Nat.not_lt_zero i)
    · rename_i none
      rcases i with _ | i
      · rw [List.drop_zero, opens_iff]
        exact none
      · exact ih (Nat.lt_of_succ_lt_succ lt)

end Markup

/-! ## Strings -/

namespace Interpolation

variable {context : Context} {text : List Char}

/-- The tokens that an interpolation begins with. -/
def opening : List TokenKind := [.variable, .interpolationBrace, .dollarBrace]

theorem AtStart.opening {step : Step} (h : AtStart context text step) :
    ∃ kind value, step.token = some (kind, value) ∧ kind ∈ opening := by
  cases h with
  | dollarBrace | brace | element | property | plain =>
    exact ⟨_, _, rfl, by simp [Interpolation.opening]⟩

end Interpolation

namespace Quoted

variable {settings : Settings} {context : Context} {quote : Char} {kind : TokenKind}
  {mode : EscapeMode} {text : List Char}

/-- What a run of text in a string ends at. -/
inductive Stops (quote : Char) (interpolates : Bool) (text : List Char) : Prop where
  | source (nil : text = [])
  | quote (closes : nextIs (· == quote) text)
  | interpolation (allowed : interpolates) (starts : Interpolation.startsAt text)

/-- A run ends only where it has to. -/
theorem runLength_stops (quote : Char) (interpolates : Bool) (text : List Char) :
    Stops quote interpolates (text.drop (runLength quote interpolates text)) := by
  fun_induction runLength quote interpolates text with
  | case1 => exact .source rfl
  | case2 => exact .source rfl
  | case3 c rest ih => exact ih
  | case4 rest escape => exact .quote (beq_self_eq_true _)
  | case5 c rest escape other starts =>
    obtain ⟨allowed, starts⟩ := Bool.and_eq_true_iff.1 starts
    exact .interpolation allowed starts
  | case6 c rest escape other starts ih => exact ih

/-- A string that is not closed is text to its end, if nothing interpolates. -/
theorem drop_runLength_of_not_closed (h : closingLength? quote false text = none) :
    text.drop (runLength quote false text) = [] := by
  rw [closingLength?_eq] at h
  cases runLength_stops quote false text with
  | source nil => exact nil
  | quote closes =>
    rw [if_pos closes] at h
    cases h
  | interpolation allowed => cases allowed

/-- A string that is not closed has no quote in front. -/
theorem not_nextIs_of_not_closed (h : closingLength? '\x27' false text = none) :
    nextIs (· == '\x27') text = false := by
  rw [← Bool.not_eq_true]
  intro closes
  rcases text with _ | ⟨c, rest⟩
  · cases closes
  · obtain rfl := eq_of_beq (closes : (c == '\x27') = true)
    cases h

variable {interpolates : Bool} {step : Step}

/-- What comes after a run of text in a string that interpolates. -/
theorem InQuotes.exists_token
    (h : InQuotes settings context quote kind mode interpolates text step)
    (stops : Stops quote interpolates text) (ne : text ≠ []) :
    ∃ read value, step.token = some (read, value) ∧
      (read = kind ∨ read ∈ Interpolation.opening) := by
  cases h with
  | closing => exact ⟨kind, .none, rfl, .inl rfl⟩
  | interpolation _ _ front =>
    obtain ⟨read, value, token, mem⟩ := front.opening
    exact ⟨read, value, token, .inr mem⟩
  | run noQuote noStart =>
    cases stops with
    | source nil => exact absurd nil ne
    | quote closes =>
      rw [noQuote] at closes
      cases closes
    | interpolation allowed starts =>
      rw [allowed, starts] at noStart
      cases noStart

/-- A run of text takes all up to where it stops. -/
theorem InQuotes.textRun (h : InQuotes settings context quote kind mode interpolates text step)
    {value : TokenValue} (other : kind ≠ .textRun) (token : step.token = some (.textRun, value)) :
    step.context = context ∧ Stops quote interpolates (text.drop step.length) := by
  cases h with
  | closing => exact absurd (Step.token_inj rfl token).1 other
  | interpolation _ _ front =>
    obtain ⟨read, value, made, mem⟩ := front.opening
    obtain ⟨rfl, -⟩ := Step.token_inj made token
    simp [Interpolation.opening] at mem
  | run =>
    refine ⟨rfl, ?_⟩
    change Stops quote interpolates
      (text.drop (text.take (runLength quote interpolates text)).length)
    rw [drop_length_take]
    exact runLength_stops quote interpolates text

/-- Single quotes that are not closed are read to the end of the source. -/
theorem InQuotes.drop_of_unclosed
    (h : InQuotes settings context '\x27' kind mode false text step)
    (unclosed : closingLength? '\x27' false text = none) : text.drop step.length = [] := by
  cases h with
  | closing front =>
    rw [not_nextIs_of_not_closed unclosed] at front
    cases front
  | interpolation interpolates => cases interpolates
  | run =>
    change text.drop (text.take (runLength '\x27' false text)).length = []
    rw [drop_length_take]
    exact drop_runLength_of_not_closed unclosed

end Quoted

/-! ## Heredocs -/

namespace HeredocBody

variable {settings : Settings} {context : Context} {label : List Char} {lineStart : Bool}
  {text : List Char}

theorem takeWhile_isIndent_of_startsAt (starts : Interpolation.startsAt text) :
    text.takeWhile isIndent = [] := by
  unfold Interpolation.startsAt at starts
  split at starts
  · rfl
  · rfl
  · cases starts

/-- No fragment is left where an interpolation begins. -/
theorem fragment_of_startsAt (label : List Char) (lineStart : Bool)
    (starts : Interpolation.startsAt text) :
    fragment label lineStart text = (0, .interpolation) ∨
      fragment label lineStart text = (0, .label 0) := by
  have noIndent := takeWhile_isIndent_of_startsAt starts
  rcases text with _ | ⟨c, rest⟩
  · cases starts
  · unfold fragment
    split
    · rename_i indent found
      have zero : indent = 0 := by
        split at found
        · rw [Heredoc.closingIndent?, noIndent] at found
          split at found
          · exact (Option.some.inj found).symm
          · cases found
        · cases found
      rw [zero]
      exact .inr rfl
    · rw [if_pos starts]
      exact .inl rfl

/-- What is read of a heredoc where an interpolation begins: that, or nothing up to the closing
label. -/
theorem heredocStep_of_startsAt {name : String} (held : context.label = some name)
    (starts : Interpolation.startsAt text) :
    heredocStep settings context lineStart text = Interpolation.step context text ∨
      (heredocStep settings context lineStart text).token = none ∧
        (heredocStep settings context lineStart text).context = context.enter .closingLabel := by
  rw [heredocStep, held]
  dsimp only
  rcases fragment_of_startsAt name.toList lineStart starts with eq | eq
  · rw [eq]
    exact .inl rfl
  · rw [eq]
    dsimp only
    refine .inr ⟨?_, (closeStep_taken ..).2⟩
    rcases lineStart with _ | _ <;> rfl

/-- A run of text in a body ends at the closing label, with the source or, in a heredoc, at an
interpolation. -/
theorem AtBody.ends_textRun {isNowdoc : Bool} {step : Step} {value : TokenValue}
    (h : AtBody settings context lineStart text isNowdoc step)
    (token : step.token = some (.textRun, value)) :
    step.context.mode = .closingLabel ∨ text.drop step.length = [] ∨
      step.context = context ∧ context.label.isSome ∧ isNowdoc = false ∧
        Interpolation.startsAt (text.drop step.length) := by
  cases h with
  | unlabelled => cases token
  | closes =>
    refine .inl ?_
    rw [(closeStep_taken ..).2]
    rfl
  | interpolates =>
    obtain ⟨kind, read, made, mem⟩ := (Interpolation.atStart context text).opening
    obtain ⟨rfl, -⟩ := Step.token_inj made token
    simp [Interpolation.opening] at mem
  | @fragment name length held pos starts =>
    refine .inr (.inr ⟨rfl, by rw [held]; rfl, rfl, ?_⟩)
    change Interpolation.startsAt (text.drop (text.take length).length)
    rw [drop_length_take]
    exact starts
  | source => exact .inr (.inl List.drop_length)

/-- At a closing label the heredoc ends, with the label in front or without it. -/
theorem AtClosing.exists_token {step : Step} (h : AtClosing context text step) :
    ∃ value, step.token = some (.heredocEnd, value) := by
  cases h with
  | gone | label => exact ⟨_, rfl⟩

end HeredocBody

/-! ## Lexers -/

/-- The tokens that a run of markup ends at. -/
def TokenKind.markupEnds : List TokenKind := [.openTag, .openTagWithEcho, .endOfSource]

/-- The tokens that a run of text in a string ends at. -/
def TokenKind.textEnds : List TokenKind :=
  [.variable, .interpolationBrace, .dollarBrace, .doubleQuote, .backquote, .heredocEnd,
    .endOfSource]

/-- What a scan from the beginning of a source keeps to: its modes are nested, and single quotes
that it is in are not closed. -/
structure Lexer.Keeps (lexer : Lexer) : Prop where
  nested : lexer.context.WellNested
  unclosed : lexer.context.mode = .singleQuoted →
    Quoted.closingLength? '\x27' false lexer.rest = none

namespace Lexer

open TokenKind

variable {lexer : Lexer} {kind : TokenKind} {value : TokenValue}

theorem Keeps.start (settings : Settings) (source : List Char) (shift : Nat) :
    (Lexer.start settings source shift).Keeps :=
  ⟨.start (.inl rfl), nofun⟩

/-- What is kept is kept by every step. -/
theorem Keeps.advance (ne : lexer.rest ≠ []) (h : lexer.Keeps) : lexer.advance.Keeps := by
  refine ⟨wellNested_advance h.nested, fun mode => ?_⟩
  change Quoted.closingLength? '\x27' false (lexer.rest.drop lexer.step.length) = none
  cases arrives h.nested ne (.inl rfl) mode with
  | stays token same =>
    rw [(step_in_singleQuoted same ne).drop_of_unclosed (h.unclosed same)]
    rfl
  | @opens kind value token opens =>
    -- only a single quote in code opens this mode
    obtain ⟨rfl, code⟩ : kind = .singleQuote ∧ lexer.context.mode = .code := by
      obtain ⟨code, mem⟩ | ⟨-, mem⟩ := Mode.opener opens
      · exact ⟨by simpa [Mode.openedInCode] using mem, code⟩
      · simp [Mode.openedInString] at mem
    exact (step_in_code code ne).tells.quote value token

/-! ### What comes after a run -/

/-- After the last fragment comes the closing label. -/
theorem next_in_closingLabel (mode : lexer.context.mode = .closingLabel) :
    lexer.next.token.kind ∈ textEnds := by
  by_cases nil : lexer.rest = []
  · rw [next_kind_of_nil nil]
    simp [textEnds]
  · obtain ⟨value, token⟩ := (step_in_closingLabel mode nil).exists_token
    rw [next_kind_of_token token]
    simp [textEnds]

theorem opening_subset_textEnds (mem : kind ∈ Interpolation.opening) : kind ∈ textEnds := by
  simp only [Interpolation.opening, textEnds, List.mem_cons, List.not_mem_nil] at mem ⊢
  tauto

/-- Where a run of text in a string stops, something else comes. -/
theorem next_in_string {quote : Char} {escapes : EscapeMode} (isQuote : kind ∈ textEnds)
    (step : lexer.rest ≠ [] → Quoted.InQuotes lexer.settings lexer.context quote kind escapes true
      lexer.rest lexer.step)
    (stops : Quoted.Stops quote true lexer.rest) : lexer.next.token.kind ∈ textEnds := by
  by_cases nil : lexer.rest = []
  · rw [next_kind_of_nil nil]
    simp [textEnds]
  · obtain ⟨read, value, token, mem⟩ := (step nil).exists_token stops nil
    rw [next_kind_of_token token]
    rcases mem with rfl | mem
    · exact isQuote
    · exact opening_subset_textEnds mem

/-- After a fragment in front of an interpolation comes the interpolation. -/
theorem next_in_heredoc (mode : lexer.context.mode = .heredoc) (held : lexer.context.label.isSome)
    (starts : Interpolation.startsAt lexer.rest) : lexer.next.token.kind ∈ textEnds := by
  have ne : lexer.rest ≠ [] := by
    intro nil
    rw [nil] at starts
    cases starts
  obtain ⟨name, held⟩ := Option.isSome_iff_exists.1 held
  have eq : lexer.step = HeredocBody.heredocStep lexer.settings lexer.context lexer.lineStart
      lexer.rest := by
    rw [step_eq ne, mode]
  rcases HeredocBody.heredocStep_of_startsAt held starts with begins | ⟨silent, same⟩
  · obtain ⟨read, value, token, mem⟩ := (Interpolation.atStart lexer.context lexer.rest).opening
    rw [next_kind_of_token (by rw [eq, begins]; exact token)]
    exact opening_subset_textEnds mem
  · rw [← eq] at silent same
    rw [next_token_of_silent silent]
    refine next_in_closingLabel ?_
    change lexer.step.context.mode = .closingLabel
    rw [same]
    rfl

/-- Runs are read by modes that go on afterwards or, at a closing label, by those of heredocs. -/
theorem reads_of_run (ne : lexer.rest ≠ []) (run : kind = .inlineHtml ∨ kind = .textRun)
    (token : lexer.step.token = some (kind, value)) : lexer.context.mode.reads kind := by
  cases step_move ne with
  | token made pos le turn =>
    obtain ⟨rfl, -⟩ := Step.token_inj token made
    generalize lexer.step.changes = changes, lexer.step.context = after at turn
    cases turn with
    | stays doc h => exact h
    | enters h | closes doc h =>
      revert h
      rcases run with rfl | rfl <;> cases lexer.context.mode <;> exact nofun
    | opens doc h => rcases run with rfl | rfl <;> simp [Mode.opens] at h
    | unmatched | names => simp at run
  | opensBody code body ne made | closesBody mode made =>
    obtain ⟨rfl, -⟩ := Step.token_inj token made
    simp at run
  | reachesLabel body held le front indent made =>
    rcases made with ⟨none, -⟩ | ⟨_, made, -⟩
    · rw [none] at token
      cases token
    · obtain ⟨rfl, -⟩ := Step.token_inj token made
      revert body
      cases lexer.context.mode <;> simp [Mode.isBody, Mode.reads, Mode.interpolates]
  | leaves free none | looksOn mode none =>
    rw [none] at token
    cases token

/-- **After a run of text in a string** comes what it ends at. -/
theorem Keeps.next_of_textRun (h : lexer.Keeps)
    (token : lexer.step.token = some (.textRun, value)) :
    lexer.advance.next.token.kind ∈ textEnds := by
  have ne : lexer.rest ≠ [] := by
    intro nil
    cases (Step.token_inj token (step_token_of_rest_eq_nil nil)).1
  have reads := reads_of_run ne (.inr rfl) token
  have ends (nil : lexer.rest.drop lexer.step.length = []) :
      lexer.advance.next.token.kind ∈ textEnds := by
    have kind : lexer.advance.next.token.kind = .endOfSource := next_kind_of_nil nil
    rw [kind]
    simp [textEnds]
  rcases mode : lexer.context.mode <;> rw [mode] at reads
  case markup | code | closingLabel | property | variableName | offset => cases reads
  case doubleQuoted =>
    obtain ⟨same, stops⟩ := (step_in_doubleQuoted mode ne).textRun (by decide) token
    have after : lexer.advance.context.mode = .doubleQuoted :=
      (congrArg Context.mode same).trans mode
    have isQuote : TokenKind.doubleQuote ∈ textEnds := by decide
    exact next_in_string isQuote (step_in_doubleQuoted after) stops
  case backquoted =>
    obtain ⟨same, stops⟩ := (step_in_backquoted mode ne).textRun (by decide) token
    have after : lexer.advance.context.mode = .backquoted :=
      (congrArg Context.mode same).trans mode
    have isQuote : TokenKind.backquote ∈ textEnds := by decide
    exact next_in_string isQuote (step_in_backquoted after) stops
  case singleQuoted => exact ends ((step_in_singleQuoted mode ne).drop_of_unclosed (h.unclosed mode))
  case heredoc =>
    rcases (step_in_body false mode ne).ends_textRun token with
      label | nil | ⟨same, held, -, starts⟩
    · exact next_in_closingLabel label
    · exact ends nil
    · refine next_in_heredoc ((congrArg Context.mode same).trans mode) ?_ starts
      rw [← same] at held
      exact held
  case nowdoc =>
    rcases (step_in_body true mode ne).ends_textRun token with label | nil | ⟨-, -, isNowdoc, -⟩
    · exact next_in_closingLabel label
    · exact ends nil
    · cases isNowdoc

/-! ### Runs of markup -/

/-- A run of markup takes all up to the next opening tag. -/
theorem step_of_inlineHtml (ne : lexer.rest ≠ [])
    (token : lexer.step.token = some (.inlineHtml, value)) :
    lexer.context.mode = .markup ∧
      lexer.step = .emitText lexer.context .inlineHtml
        (lexer.rest.take (Markup.textLength lexer.settings lexer.rest)) := by
  have reads := reads_of_run ne (.inl rfl) token
  have mode : lexer.context.mode = .markup := by
    revert reads
    cases lexer.context.mode <;> first | exact fun _ => rfl | exact nofun
  exact ⟨mode, (step_in_markup mode ne).inlineHtml token⟩

/-- Where a run of markup stops there is an opening tag, or nothing. -/
theorem next_in_markup (mode : lexer.context.mode = .markup)
    (stops : lexer.rest = [] ∨ Markup.Opens lexer.settings lexer.rest) :
    lexer.next.token.kind ∈ markupEnds := by
  by_cases nil : lexer.rest = []
  · rw [next_kind_of_nil nil]
    simp [markupEnds]
  · obtain ⟨⟨kind, length⟩, tag⟩ :=
      Option.isSome_iff_exists.1 (Markup.opens_iff.1 (stops.resolve_left nil))
    have token : lexer.step.token = some (kind, .none) := by
      rw [step_eq nil, mode]
      dsimp only
      rw [Markup.step, tag]
      rfl
    rw [next_kind_of_token token]
    rcases Markup.openTagAt?_kind tag with rfl | rfl <;> simp [markupEnds]

/-- **After a run of markup** comes an opening tag, or nothing, and none comes in it. -/
theorem next_of_inlineHtml (ne : lexer.rest ≠ [])
    (token : lexer.step.token = some (.inlineHtml, value)) :
    lexer.advance.next.token.kind ∈ markupEnds ∧
      ∀ i < lexer.step.length, ¬Markup.Opens lexer.settings (lexer.rest.drop i) := by
  obtain ⟨mode, step⟩ := step_of_inlineHtml ne token
  have length : lexer.step.length =
      (lexer.rest.take (Markup.textLength lexer.settings lexer.rest)).length := by rw [step]; rfl
  refine ⟨next_in_markup ?_ ?_, fun i lt => Markup.not_opens_of_lt ?_⟩
  · change lexer.step.context.mode = .markup
    rw [step]
    exact mode
  · change lexer.rest.drop lexer.step.length = [] ∨
      Markup.Opens lexer.settings (lexer.rest.drop lexer.step.length)
    rw [length, drop_length_take]
    exact Markup.textLength_stops ..
  · rw [length, List.length_take] at lt
    exact Nat.lt_of_lt_of_le lt (Nat.min_le_left ..)

/-! ### Scans -/

section Scans

variable {settings : Settings} {source : List Char} {shift : Nat} {front back : List Token}
  {token : Token}

theorem scan_inlineHtml
    (tokens : (start settings source shift).scan.tokens = front ++ token :: back)
    (kind : token.kind = .inlineHtml) :
    (∃ next later, back = next :: later ∧ next.kind ∈ markupEnds) ∧
      ∀ i < token.span.length,
        ¬Markup.Opens settings (source.drop (token.span.start - shift + i)) := by
  obtain ⟨maker, -, within, ne, made, span, rfl⟩ :=
    exists_maker_within (motive := Keeps) (fun _ ne h => h.advance ne)
      (.start settings source shift) tokens (by rw [kind]; exact nofun)
  rw [kind] at made
  obtain ⟨ends, inside⟩ := next_of_inlineHtml ne made
  obtain ⟨later, next⟩ := maker.advance.scan_tokens_eq
  refine ⟨⟨_, later, next, ends⟩, fun i lt => ?_⟩
  rw [within.settings_eq, within.rest_eq] at inside
  rw [← span] at lt ⊢
  rw [← List.drop_drop]
  exact inside i lt

theorem scan_textRun
    (tokens : (start settings source shift).scan.tokens = front ++ token :: back)
    (kind : token.kind = .textRun) :
    ∃ next later, back = next :: later ∧ next.kind ∈ textEnds := by
  obtain ⟨maker, keeps, -, -, made, -, rfl⟩ :=
    exists_maker_within (motive := Keeps) (fun _ ne h => h.advance ne)
      (.start settings source shift) tokens (by rw [kind]; exact nofun)
  rw [kind] at made
  obtain ⟨later, next⟩ := maker.advance.scan_tokens_eq
  exact ⟨_, later, next, keeps.next_of_textRun made⟩

end Scans

/-- **Runs are maximal.** In a scan from the beginning of a source a run of markup is followed by an
opening tag or the end, and no opening tag begins in it; a run of text in a string is followed by an
interpolation, the closing quote or label, or the end. So no two runs of a kind are neighbours. -/
theorem scan_runs (settings : Settings) (source : List Char) (shift : Nat) :
    let tokens := (start settings source shift).scan.tokens
    (∀ front token back, tokens = front ++ token :: back → token.kind = .inlineHtml →
      (∃ next later, back = next :: later ∧ next.kind ∈ markupEnds) ∧
        ∀ i < token.span.length,
          ¬Markup.Opens settings (source.drop (token.span.start - shift + i))) ∧
    (∀ front token back, tokens = front ++ token :: back → token.kind = .textRun →
      ∃ next later, back = next :: later ∧ next.kind ∈ textEnds) ∧
    tokens.IsChain fun token next =>
      ¬(token.kind = .inlineHtml ∧ next.kind = .inlineHtml) ∧
        ¬(token.kind = .textRun ∧ next.kind = .textRun) := by
  intro tokens
  refine ⟨fun _ _ _ => scan_inlineHtml, fun _ _ _ => scan_textRun,
    List.isChain_iff_forall_rel_of_append_cons_cons.2 ?_⟩
  intro token next front later eq
  refine ⟨fun ⟨kind, same⟩ => ?_, fun ⟨kind, same⟩ => ?_⟩
  · obtain ⟨⟨_, _, back, ends⟩, -⟩ := scan_inlineHtml eq kind
    obtain ⟨rfl, -⟩ := List.cons.inj back
    rw [same] at ends
    simp [markupEnds] at ends
  · obtain ⟨_, _, back, ends⟩ := scan_textRun eq kind
    obtain ⟨rfl, -⟩ := List.cons.inj back
    rw [same] at ends
    simp [textEnds] at ends

/-- Markup before an opening tag, and text before a variable. -/
theorem scan_runs_before_variable :
    let source := "a<?=\"b$c\"".toList
    let tokens := (start {} source 0).scan.tokens
    (∃ token back, tokens = [] ++ token :: back ∧ token.kind = .inlineHtml ∧
      (∃ next later, back = next :: later ∧ next.kind ∈ markupEnds) ∧
        ∀ i < token.span.length, ¬Markup.Opens {} (source.drop (token.span.start - 0 + i))) ∧
    ∃ front token back, tokens = front ++ token :: back ∧ token.kind = .textRun ∧
      ∃ next later, back = next :: later ∧ next.kind ∈ textEnds := by
  intro source tokens
  have markup : (start {} source 0).step.token = some (.inlineHtml, _) := rfl
  have tag : (start {} source 0).advance.step.token = some (.openTagWithEcho, _) := rfl
  have quote : (start {} source 0).advance.advance.step.token = some (.doubleQuote, _) := rfl
  have text : (start {} source 0).advance.advance.advance.step.token = some (.textRun, _) := rfl
  have all := scan_tokens_of_token markup nofun
  rw [scan_tokens_of_token tag nofun, scan_tokens_of_token quote nofun,
    scan_tokens_of_token text nofun] at all
  obtain ⟨inMarkup, inText, -⟩ := scan_runs {} source 0
  exact ⟨⟨_, _, all, rfl, inMarkup [] _ _ all rfl⟩,
    [_, _, _], _, _, all, rfl, inText [_, _, _] _ _ all rfl⟩

end Lexer

end PhpFrontEnd
