import PhpFrontEnd.Proofs.History
import PhpFrontEnd.Proofs.IntegerValue
import PhpFrontEnd.Proofs.Resume
import PhpFrontEnd.Tree.Literal

/-!
# What tokens carry

The kind of a token says which value it has, and for most kinds the value is told by the characters
that the token takes: names, comments and markup are their own value, a variable is its name
without the dollar sign, a run of text keeps its source besides its decoded text. Numbers are in
the range of their kind, and a heredoc carries its label from the opening to the end.
`TokenKind.Carries` is that table, one row per kind.

It holds of every step by itself (`Step.Carries`) with one exception: the end of a heredoc carries
the label that is held, which is the text in front only because a closing label is never due
elsewhere. Whoever builds literals from tokens relies on the table, for a token whose kind and
value do not fit is no literal at all (`Expression.ofToken?`).
-/

namespace PhpFrontEnd

/-- The value that a token of some kind has when it takes some characters. -/
def TokenKind.Carries (taken : List Char) (kind : TokenKind) (value : TokenValue) : Prop :=
  match kind with
  | .inlineHtml | .comment | .docComment | .identifier | .bareVariable | .heredocEnd
  | .keyword _ | .yieldFrom => value = .text (.ofChars taken)
  | .variable => ∃ name, taken = '$' :: name ∧ value = .text (.ofChars name)
  | .textRun => ∃ text, value = .run text (String.ofList taken)
  | .quotedLiteral => ∃ text quote, value = .literal text quote
  | .integer => ∃ n, value = .integer n ∧ 0 ≤ n.toInt ∧ n.toInt < 2 ^ 31
  | .wideInteger => ∃ n, value = .wideInteger n ∧ 2 ^ 31 ≤ n.toInt
  | .real => ∃ x, value = .real x
  | .offsetNumber =>
    (∃ n, value = .integer n) ∨ (∃ n, value = .wideInteger n) ∨ ∃ s, value = .text (.str s)
  | .heredocStart => ∃ label, label ≠ [] ∧ label <:+: taken ∧ value = .text (.ofChars label)
  | _ => value = .none

/-- A step whose token carries what its kind says. -/
def Step.Carries (step : Step) (text : List Char) : Prop :=
  ∀ kind value, step.token = some (kind, value) → kind.Carries (text.take step.length) value

namespace Step

variable {step : Step} {context : Context} {kind : TokenKind} {value : TokenValue}
  {text taken : List Char} {length : Nat}

/-- A token is the only one of its step, so that nothing else has to carry anything. -/
theorem carries_of_token (token : step.token = some (kind, value))
    (h : kind.Carries (text.take step.length) value) : step.Carries text := by
  intro kind value made
  obtain ⟨rfl, rfl⟩ := Step.token_inj token made
  exact h

/-- A step without a token carries nothing that could be wrong. -/
theorem carries_of_silent (token : step.token = none) : step.Carries text := by
  intro kind value made
  rw [token] at made
  cases made

/-- Problems make no difference to what a token carries. -/
theorem Carries.errors (h : step.Carries text) (errors : List LexError) :
    { step with errors := errors }.Carries text :=
  h

/-- Neither does a change of modes. -/
theorem Carries.change {change : ModeChange} (h : step.Carries text) :
    (step.change change).Carries text :=
  h

/-- Tokens of kinds that have no value. -/
theorem carries_emit (h : kind.Carries (text.take length) .none) :
    (emit context kind length).Carries text :=
  carries_of_token rfl h

/-- Kinds whose value is the text of the token. -/
theorem carries_text {shared : List String} (front : taken <+: text)
    (h : kind.Carries taken (.text (.ofChars taken))) :
    { emitText context kind taken with shared := shared }.Carries text := by
  refine carries_of_token rfl ?_
  change kind.Carries (text.take taken.length) _
  rwa [← List.prefix_iff_eq_take.1 front]

/-- A run of text keeps its own source, whatever it decodes to. -/
theorem carries_emitRun {decoded : Decoded} (front : taken <+: text) (errors : List LexError) :
    { emitRun context taken decoded with errors := errors }.Carries text := by
  refine carries_of_token rfl ⟨decoded.text, ?_⟩
  change _ = TokenValue.run _ (String.ofList (text.take taken.length))
  rw [← List.prefix_iff_eq_take.1 front]

end Step

/-! ## Markup and numbers -/

/-- A run of markup is its own value. -/
theorem Markup.AtMarkup.carries {settings : Settings} {context : Context} {text : List Char}
    {step : Step} (h : AtMarkup settings context text step) : step.Carries text := by
  cases h with
  | tag front =>
    refine .change (Step.carries_emit ?_)
    rcases openTagAt?_kind front with rfl | rfl <;> rfl
  | run => exact Step.carries_text (List.take_prefix _ _) rfl

namespace Number

/-- A number that no 32 bits hold goes to the wide token. -/
theorem integerToken_eq_ite (kind wide : TokenKind) (value : Int64) :
    integerToken kind wide value =
      if value.toInt < 2 ^ 31 then (kind, .integer value.toInt32)
      else (wide, .wideInteger value) := by
  rw [integerToken, Int32.toInt_maxValue]
  congr 1
  exact propext Int.le_sub_one_iff

/-- A number that fits half a word is not negative there. -/
theorem toInt32_range {value : Int64} (nonneg : 0 ≤ value.toInt) (lt : value.toInt < 2 ^ 31) :
    0 ≤ value.toInt32.toInt ∧ value.toInt32.toInt < 2 ^ 31 := by
  rw [Int64.toInt_toInt32, Int.bmod_eq_of_le (by omega) (by omega)]
  exact ⟨nonneg, lt⟩

/-- Numbers carry a value in the range of their kind; an integer too large for a word is a real. -/
theorem Makes.carries {context : Context} {literal : List Char} {step : Step}
    (h : Makes context literal step) (text : List Char) : step.Carries text := by
  cases h with
  | @word radix digits value errors mem read =>
    have radixes : ∀ radix ∈ [2, 8, 10, 16], 0 < radix ∧ radix < 2 ^ 63 := by decide
    obtain ⟨pos, small⟩ := radixes radix mem
    have nonneg : 0 ≤ value.toInt := by
      rw [IntegerLiteral.toInt_of_read pos small read]
      exact Int.natCast_nonneg _
    rw [integerToken_eq_ite]
    by_cases lt : value.toInt < 2 ^ 31
    · exact Step.carries_of_token (congrArg some (if_pos lt)) ⟨_, rfl, toInt32_range nonneg lt⟩
    · exact Step.carries_of_token (congrArg some (if_neg lt)) ⟨_, rfl, Int.not_lt.1 lt⟩
  | tooBig | real => exact Step.carries_of_token rfl ⟨_, rfl⟩

/-- A number in an offset carries an integer or its text. -/
theorem MakesKey.carries {context : Context} {digits : List Char} {step : Step}
    (h : MakesKey context digits step) (text : List Char) : step.Carries text := by
  cases h with
  | padded | tooBig => exact Step.carries_of_token rfl (.inr (.inr ⟨_, rfl⟩))
  | @word value =>
    rw [integerToken_eq_ite]
    by_cases lt : value.toInt < 2 ^ 31
    · exact Step.carries_of_token (congrArg some (if_pos lt)) (.inl ⟨_, rfl⟩)
    · exact Step.carries_of_token (congrArg some (if_neg lt)) (.inr (.inl ⟨_, rfl⟩))

end Number

/-! ## Interpolations and strings -/

namespace Interpolation

/-- A variable carries its name without the dollar sign. -/
theorem emitVariable_carries (context : Context) {text : List Char}
    (dollar : nextIs (· == '$') text) : (emitVariable context text).Carries text := by
  rcases text with _ | ⟨c, rest⟩
  · cases dollar
  obtain rfl := eq_of_beq dollar
  refine Step.carries_of_token rfl ⟨rest.takeWhile isLabelPart, ?_, rfl⟩
  exact congrArg _ (List.prefix_iff_eq_take.1 (List.takeWhile_prefix _)).symm

/-- An interpolation without a brace in front begins with a dollar sign. -/
theorem dollar_of_startsAt {text : List Char} (starts : startsAt text)
    (noBrace : nextIs (· == '\x7b') text = false) : nextIs (· == '$') text := by
  unfold startsAt at starts
  split at starts
  · rfl
  · cases noBrace
  · cases starts

/-- What opens an interpolation carries nothing, unless it is a variable. -/
theorem AtStart.carries {context : Context} {text : List Char} {step : Step}
    (h : AtStart context text step) (starts : startsAt text) : step.Carries text := by
  have plain (noBrace : nextIs (· == '\x7b') text = false) :=
    emitVariable_carries context (dollar_of_startsAt starts noBrace)
  cases h with
  | dollarBrace | brace => exact .change (Step.carries_emit rfl)
  | element noBrace | property noBrace => exact (plain noBrace).change
  | plain noBrace => exact plain noBrace

theorem AtProperty.carries {context : Context} {text : List Char} {step : Step}
    (h : AtProperty context text step) : step.Carries text := by
  cases h with
  | blanks | arrow | nullsafeArrow => exact Step.carries_emit rfl
  | name => exact .change (Step.carries_text (List.takeWhile_prefix _) rfl)
  | other => exact .change (Step.carries_of_silent rfl)

/-- The name of a variable in braces is its own value. -/
theorem AtVariableName.carries {context : Context} {text : List Char} {step : Step}
    (h : AtVariableName context text step) : step.Carries text := by
  cases h with
  | name => exact .change (.change (Step.carries_text (List.takeWhile_prefix _) rfl))
  | other => exact .change (.change (Step.carries_of_silent rfl))

theorem AtOffset.carries {context : Context} {text : List Char} {step : Step}
    (h : AtOffset context text step) : step.Carries text := by
  cases h with
  | bracket | minus => exact Step.carries_emit rfl
  | closing => exact .change (Step.carries_emit rfl)
  | dollar front => exact emitVariable_carries context front
  | number _ makes => exact makes.carries text
  | name => exact Step.carries_text (List.takeWhile_prefix _) rfl
  | other => exact .change (Step.carries_of_silent rfl)

end Interpolation

namespace Quoted

/-- A closed string carries its text, an opening quote nothing. -/
theorem AtQuote.carries {settings : Settings} {context : Context} {text : List Char} {before : Nat}
    {step : Step} (h : AtQuote settings context text before step) : step.Carries text := by
  cases h with
  | closed => exact Step.carries_of_token rfl ⟨_, _, rfl⟩
  | single | double => exact .change (Step.carries_emit rfl)

/-- A run in a string keeps its source. -/
theorem InQuotes.carries {settings : Settings} {context : Context} {quote : Char}
    {kind : TokenKind} {mode : EscapeMode} {interpolates : Bool} {text : List Char} {step : Step}
    (h : InQuotes settings context quote kind mode interpolates text step)
    (plain : ∀ taken, kind.Carries taken .none) : step.Carries text := by
  cases h with
  | closing => exact .change (Step.carries_emit (plain _))
  | interpolation _ starts front => exact front.carries starts
  | run => exact Step.carries_emitRun (List.take_prefix _ _) _

end Quoted

/-! ## Heredocs -/

namespace HeredocBody

/-- What lies in a text lies in the part of it that reaches as far. -/
theorem isInfix_take_drop {first length stop : Nat} (text : List Char)
    (le : first + length ≤ stop) : (text.drop first).take length <:+: text.take stop := by
  rw [List.take_drop]
  exact (List.drop_suffix _ _).isInfix.trans (List.take_prefix_take_left le).isInfix

theorem isInfix_takeWhile_drop {p : Char → Bool} {first stop : Nat} (text : List Char)
    (le : first + ((text.drop first).takeWhile p).length ≤ stop) :
    (text.drop first).takeWhile p <:+: text.take stop := by
  rw [List.prefix_iff_eq_take.1 (List.takeWhile_prefix (l := text.drop first) p)]
  exact isInfix_take_drop text le

/-- The label of an opening is a part of it. -/
theorem Opening.label_isInfix {text : List Char} {opening : Opening}
    (h : Opening.after? text = some opening) : opening.label <:+: text.take opening.length := by
  unfold Opening.after? at h
  dsimp only at h
  split at h
  · obtain ⟨lineEnd, -, rfl⟩ := Option.map_eq_some_iff.1 h
    dsimp only
    rw [List.drop_drop]
    exact isInfix_takeWhile_drop text (by omega)
  · cases h

/-- The opening of a heredoc carries the label that stands in it. -/
theorem openingStep?_carries {context : Context} {text : List Char} {before : Nat} {step : Step}
    (h : openingStep? context text before = some step) : step.Carries text := by
  obtain ⟨opening, eq, rfl⟩ := Option.map_eq_some_iff.1 h
  refine .change (Step.carries_of_token rfl ⟨opening.label, (Opening.after?_eq_some eq).1, ?_, rfl⟩)
  exact (Opening.label_isInfix eq).trans (isInfix_take_drop text (Nat.le_refl _))

/-- The last fragment of a body keeps its source. -/
theorem closeStep_carries (settings : Settings) (context : Context) (isNowdoc lineStart : Bool)
    {source text : List Char} (front : source <+: text) :
    (closeStep settings context isNowdoc lineStart source).Carries text := by
  rw [closeStep_eq]
  dsimp only
  split
  · exact .change (Step.carries_of_silent rfl)
  · exact .change (Step.carries_emitRun front _)

theorem AtBody.carries {settings : Settings} {context : Context} {lineStart isNowdoc : Bool}
    {text : List Char} {step : Step} (h : AtBody settings context lineStart text isNowdoc step) :
    step.Carries text := by
  cases h with
  | unlabelled => exact .change (Step.carries_of_silent rfl)
  | closes => exact closeStep_carries settings context _ _ (List.take_prefix _ _)
  | interpolates starts => exact (Interpolation.atStart context text).carries starts
  | fragment => exact Step.carries_emitRun (List.take_prefix _ _) _
  | source => exact Step.carries_emitRun (List.prefix_refl _) _

end HeredocBody

/-! ## Code -/

namespace Code

/-- Names and keywords are their own value. -/
theorem AtName.carries {context : Context} {text : List Char} {step : Step}
    (h : AtName context text step) : step.Carries text := by
  cases h with
  | word isWord =>
    refine Step.carries_text (List.takeWhile_prefix isLabelPart) ?_
    obtain rfl | ⟨keyword, rfl⟩ := isWord <;> rfl
  | yieldFrom => exact Step.carries_text (List.take_prefix _ _) rfl

/-- Marks carry nothing. -/
theorem AtMark.carries {context : Context} {text : List Char} {step : Step}
    (h : AtMark context text step) : step.Carries text := by
  cases h with
  | @mark length mark =>
    have plain : (Step.emit context (.mark mark) length).Carries text := Step.carries_emit rfl
    obtain ⟨after, changes, eq⟩ := afterMark_eq (.emit context (.mark mark) length) mark
    rw [eq]
    exact plain
  | bad =>
    have plain : (Step.emit context .badCharacter 1).Carries text := Step.carries_emit rfl
    exact plain.errors _

/-- A comment is its own value, closed or not. -/
theorem AtBlockComment.carries {context : Context} {start : Nat} {text : List Char} {step : Step}
    (h : AtBlockComment context start text step) : step.Carries text := by
  cases h with
  | plain front | doc front =>
    refine Step.Carries.errors (Step.carries_text front ?_) _
    rfl

/-- Every step in code carries what the kind of its token says. -/
theorem AtCode.carries {settings : Settings} {context : Context} {start : Nat} {text : List Char}
    {step : Step} (h : AtCode settings context start text step) : step.Carries text := by
  cases h with
  | attributeOpen | separator | cast | whitespace => exact Step.carries_emit rfl
  | closeTag | backquote => exact .change (Step.carries_emit rfl)
  | lineComment => exact Step.carries_text (List.take_prefix _ _) rfl
  | blockComment comment => exact comment.carries
  | quote _ quoted => exact quoted.carries
  | heredoc _ opening => exact HeredocBody.openingStep?_carries opening
  | dollar front => exact Interpolation.emitVariable_carries context front
  | number front =>
    obtain ⟨literal, -, -, makes⟩ := Number.exists_makes context front
    exact makes.carries text
  | name _ named => exact named.carries
  | mark marked => exact marked.carries

end Code

/-! ## Lexers -/

namespace Lexer

variable {lexer : Lexer}

/-- Every step of a lexer whose labels are where they are due. -/
theorem Labelled.carries (h : lexer.Labelled) : lexer.step.Carries lexer.rest := by
  by_cases nil : lexer.rest = []
  · exact Step.carries_of_token (step_token_of_rest_eq_nil nil) rfl
  by_cases closing : lexer.context.mode = .closingLabel
  · -- what the end of a heredoc carries is what is held, and that is in front
    obtain ⟨label, held, front, indent⟩ := h.front closing
    cases step_move nil with
    | token token pos le turn => exact absurd closing turn.mode_ne_closingLabel
    | opensBody code =>
      rw [code] at closing
      cases closing
    | reachesLabel body =>
      rw [closing] at body
      cases body
    | closesBody mode token le length same =>
      refine Step.carries_of_token token ?_
      rw [held, length label held front indent, ← String.length_toList,
        ← List.prefix_iff_eq_take.1 front]
      exact congrArg (TokenValue.text ∘ Text.str) (String.ofList_toList).symm
    | leaves free token | looksOn mode token => exact Step.carries_of_silent token
  rw [step_eq nil]
  cases mode : lexer.context.mode with
  | markup => exact (Markup.atMarkup ..).carries
  | code => exact (Code.atCode _ _ _ nil).carries
  | doubleQuoted | backquoted => exact (Quoted.inInterpolated ..).carries fun _ => rfl
  | singleQuoted => exact (Quoted.inSingleQuoted ..).carries fun _ => rfl
  | heredoc => exact HeredocBody.atBody_heredoc.carries
  | nowdoc => exact HeredocBody.atBody_nowdoc.carries
  | closingLabel => exact absurd mode closing
  | property => exact (Interpolation.atProperty ..).carries
  | variableName => exact (Interpolation.atVariableName ..).carries
  | offset => exact (Interpolation.atOffset ..).carries

end Lexer

/-! ## Tokens of a scan -/

/-- The part of a source that lies in a span; the source begins at an offset. -/
def Span.slice (span : Span) (offset : Nat) (source : List Char) : List Char :=
  (source.drop (span.start - offset)).take span.length

/-- A literal with a place and a value of a token. -/
inductive Expression.IsLiteral (span : Span) : TokenValue → Expression → Prop where
  | integer (n : Int32) : IsLiteral span (.integer n) (.integer { span } n.toInt64)
  | wideInteger (n : Int64) : IsLiteral span (.wideInteger n) (.integer { span } n)
  | real (x : Float) : IsLiteral span (.real x) (.double { span } x)
  | string (s : String) (quote : Quote) :
    IsLiteral span (.literal (.str s) quote) (.string { span } s)
  | binaryString (b : List UInt8) (quote : Quote) :
    IsLiteral span (.literal (.bytes b) quote) (.binaryString { span } b)

/-- Numbers and complete strings. -/
def TokenKind.isLiteral : TokenKind → Bool
  | .integer | .wideInteger | .real | .quotedLiteral => true
  | _ => false

/-- A token at a part of a source, with the value that goes with its kind. -/
structure Token.WellFormed (offset : Nat) (source : List Char) (token : Token) : Prop where
  offset_le : offset ≤ token.span.start
  length_eq : (token.span.slice offset source).length = token.span.length
  carries : token.kind.Carries (token.span.slice offset source) token.value
  literal : token.kind.isLiteral →
    ∃ e, Expression.ofToken? token = some e ∧ Expression.IsLiteral token.span token.value e

/-- A token that carries what its kind says is a literal if its kind is that of one. -/
theorem TokenKind.Carries.ofToken? {kind : TokenKind} {value : TokenValue} {taken : List Char}
    (h : kind.Carries taken value) (span : Span) (literal : kind.isLiteral) :
    ∃ e, Expression.ofToken? ⟨kind, span, value⟩ = some e ∧ e.IsLiteral span value := by
  cases kind <;> try cases literal
  case integer =>
    obtain ⟨n, rfl, -⟩ := h
    exact ⟨_, rfl, .integer n⟩
  case wideInteger =>
    obtain ⟨n, rfl, -⟩ := h
    exact ⟨_, rfl, .wideInteger n⟩
  case real =>
    obtain ⟨x, rfl⟩ := h
    exact ⟨_, rfl, .real x⟩
  case quotedLiteral =>
    obtain ⟨text | bytes, quote, rfl⟩ := h
    · exact ⟨_, rfl, .string text quote⟩
    · exact ⟨_, rfl, .binaryString bytes quote⟩

namespace Lexer

variable {lexer : Lexer} {settings : Settings} {source : List Char} {shift : Nat}

/-- The token of a step is well formed at its place in the source. -/
theorem Labelled.wellFormed {kind : TokenKind} {value : TokenValue} (labelled : lexer.Labelled)
    (within : lexer.Within settings source shift)
    (token : lexer.step.token = some (kind, value)) :
    Token.WellFormed shift source ⟨kind, lexer.span, value⟩ := by
  have slice : lexer.span.slice shift source = lexer.rest.take lexer.step.length := by
    rw [within.rest_eq]
    rfl
  have carries := labelled.carries kind value token
  rw [← slice] at carries
  refine ⟨within.shift_le, ?_, carries, carries.ofToken? lexer.span⟩
  change (lexer.span.slice shift source).length = lexer.step.length
  rw [slice]
  exact List.length_take_of_le lexer.step_length_le

/-- The tokens of all further steps are well formed. -/
theorem Labelled.tokens_wellFormed (labelled : lexer.Labelled)
    (within : lexer.Within settings source shift) :
    ∀ token ∈ lexer.scan.tokens, token.WellFormed shift source := by
  induction lexer using step_induction with
  | nil lexer nil =>
    have ended := labelled.wellFormed within (step_token_of_rest_eq_nil nil)
    have place : lexer.span = ⟨lexer.offset, 0⟩ := by
      obtain ⟨settings, rest, offset, lineStart, context⟩ := lexer
      cases nil
      rfl
    rw [scan_of_nil nil]
    intro token mem
    rw [List.mem_singleton.1 mem, ← place]
    exact ended
  | step lexer ne ih =>
    have later := ih labelled.advance within.advance
    rcases token : lexer.step.token with _ | ⟨kind, value⟩
    · rw [scan_of_silent token]
      exact later
    · rw [scan_of_token token ((step_move ne).ne_endOfSource token)]
      intro other mem
      rcases List.mem_cons.1 mem with rfl | mem
      · exact labelled.wellFormed within token
      · exact later other mem

/-- The tokens of a source are well formed, whatever the settings and whichever mode the source
begins in, apart from that of closing labels. -/
theorem scan_wellFormed (settings : Settings) (source : List Char) (shift : Nat) {mode : Mode}
    (h : mode ≠ .closingLabel) :
    ∀ token ∈ (start settings source shift { mode }).scan.tokens, token.WellFormed shift source :=
  (labelled_start settings source shift h).tokens_wellFormed (within_start _)

/-- A binary heredoc between a label that is none and a number that needs 64 bits. -/
theorem scan_wellFormed_binary_heredoc : Mode.markup ≠ .closingLabel ∧
    ∀ token ∈ (start {} "<?php b<<<1 b<<<E\n$a[07]\n  E; 0x8000_0000".toList 3
      { mode := .markup }).scan.tokens,
      token.WellFormed 3 "<?php b<<<1 b<<<E\n$a[07]\n  E; 0x8000_0000".toList :=
  ⟨by decide, scan_wellFormed {} _ 3 (by decide)⟩

end Lexer

end PhpFrontEnd
