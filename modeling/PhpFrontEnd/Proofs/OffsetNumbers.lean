import PhpFrontEnd.Proofs.AfterArrows
import PhpFrontEnd.Proofs.PlainDecoding
import PhpFrontEnd.Proofs.RealTokens
import PhpFrontEnd.Proofs.Separators

/-!
# Numbers between the brackets of an interpolation

An element of an array is looked up by an integer or by a text, and the two are different keys. So a
number between brackets counts as an integer only if nothing is lost by that: if the integer is
written just as the source writes it. Digits with a leading zero are not the way to write any
number, and a number of `2 ^ 63` or more has no integer to hold it; both stay text
(`IntegerLiteral.Key`).

The digits of such a number are as many as there are, on both sides. That no digit stands behind
them is how they are taken. That none stands in front of them is kept by all steps: the mode between
brackets is only entered in front of a bracket, and what is taken in it ends where no digit follows
or is no digit itself (`Lexer.KeepsDigits`).
-/

namespace PhpFrontEnd

/-! ## Integers that are written back -/

namespace IntegerLiteral

variable {digits : List Char}

/-- The value that stands for digits as a key: an integer if it is written with these digits, and
the digits themselves if none is. -/
inductive Key (digits : List Char) : TokenValue → Prop where
  | narrow {value : Int32} (plain : ¬HasLeadingZero digits) (lt : number 10 digits < 2 ^ 31)
      (written : toString value = String.ofList digits) : Key digits (.integer value)
  | wide {value : Int64} (plain : ¬HasLeadingZero digits) (ge : 2 ^ 31 ≤ number 10 digits)
      (lt : number 10 digits < 2 ^ 63) (written : toString value = String.ofList digits) :
      Key digits (.wideInteger value)
  | text (h : HasLeadingZero digits ∨ 2 ^ 63 ≤ number 10 digits) :
      Key digits (.text (.ofChars digits))

/-- Of digits alone all count. -/
theorem hasLeadingZero_iff (isDigits : ∀ c ∈ digits, c.isDigit) :
    HasLeadingZero digits ↔ 1 < digits.length ∧ digits.head? = some '0' := by
  have plain : IsPlain digits := fun c mem => .inl (isDigits c mem)
  rw [HasLeadingZero, List.countP_eq_length.2 isDigits, and_iff_right plain, and_comm]

theorem number_eq_valueOf (isDigits : ∀ c ∈ digits, c.isDigit) :
    number 10 digits = Escape.valueOf 10 digits := by
  have noUnderscore : digits.filter (· ≠ '_') = digits := by
    refine List.filter_eq_self.2 fun c mem => ?_
    exact decide_eq_true (Decimal.isDigit_ne (isDigits c mem) rfl)
  have all : digits.takeWhile (isDigitOf 10) = digits := by
    rw [Number.isDigitOf_ten_eq]
    exact List.takeWhile_eq_self_iff.2 isDigits
  rw [number, noUnderscore, all]

theorem digitChar_of_digitValue? {c : Char} {d : Nat} (h : digitValue? 10 c = some d) :
    d.digitChar = c := by
  have digit : c.isDigit := Number.isDigit_of_isDigitOf (Nat.le_refl 10) (by rw [isDigitOf, h]; rfl)
  obtain ⟨value, less⟩ := Option.filter_eq_some_iff.1 h
  rw [if_pos digit] at value
  obtain rfl := Option.some.inj value
  have range : '0'.toNat ≤ c.toNat := by
    simp only [Char.isDigit, Bool.and_eq_true, decide_eq_true_eq] at digit
    exact UInt32.le_iff_toNat_le.1 digit.1
  rw [← Char.toNat_inj, Nat.toNat_digitChar_of_lt_ten (of_decide_eq_true less)]
  exact Nat.add_sub_cancel' range

/-- Digits without a leading zero are the way to write the number that they denote. -/
theorem toDigits_of_denotes {n : Nat} (denotes : Escape.Denotes 10 digits n)
    (plain : digits.head? = some '0' → digits.length = 1) : Nat.toDigits 10 n = digits := by
  induction denotes with
  | digit h =>
    rw [Nat.toDigits_of_lt_base (digitValue?_lt h), digitChar_of_digitValue? h]
  | @append digits n c d front h ih =>
    have ne : digits ≠ [] := (Escape.denotes_iff.1 front).1
    -- a zero in front would be the whole of the digits
    have noZero : digits.head? ≠ some '0' := by
      intro zero
      have one := plain (by rw [List.head?_append, zero]; rfl)
      simp [ne] at one
    have eq := ih fun zero => absurd zero noZero
    have pos : 0 < n := by
      refine Nat.pos_of_ne_zero ?_
      rintro rfl
      exact noZero (by rw [← eq]; rfl)
    calc
      Nat.toDigits 10 (n * 10 + d) = Nat.toDigits 10 (10 * n + d) := by rw [Nat.mul_comm]
      _ = Nat.toDigits 10 n ++ Nat.toDigits 10 d :=
        (Nat.toDigits_append_toDigits (by decide) pos (digitValue?_lt h)).symm
      _ = digits ++ [c] := by
        rw [eq, Nat.toDigits_of_lt_base (digitValue?_lt h), digitChar_of_digitValue? h]

/-- An integer that digits without a leading zero denote is written with these digits. -/
theorem toString_of_number {n : Int} (isDigits : ∀ c ∈ digits, c.isDigit) (ne : digits ≠ [])
    (plain : ¬HasLeadingZero digits) (eq : n = number 10 digits) :
    toString n = String.ofList digits := by
  have denotes : Escape.Denotes 10 digits (number 10 digits) := by
    refine Escape.denotes_iff.2 ⟨ne, fun c mem => ?_, number_eq_valueOf isDigits⟩
    rw [Number.isDigitOf_ten_eq]
    exact isDigits c mem
  have alone (zero : digits.head? = some '0') : digits.length = 1 := by
    have pos := List.length_pos_iff.2 ne
    have few : ¬1 < digits.length := fun many =>
      plain ((hasLeadingZero_iff isDigits).2 ⟨many, zero⟩)
    omega
  calc
    toString n = toString (number 10 digits) := by
      rw [eq]
      rfl
    _ = String.ofList digits := by
      rw [Nat.toString_eq_ofList_toDigits, toDigits_of_denotes denotes alone]

end IntegerLiteral

namespace Number

open IntegerLiteral

/-- The token of a number between brackets has the digits as they are, or their value. -/
theorem MakesKey.exists_key {context : Context} {digits : List Char} {step : Step}
    (h : MakesKey context digits step) (isDigits : ∀ c ∈ digits, c.isDigit) (ne : digits ≠ []) :
    ∃ value, step.token = some (.offsetNumber, value) ∧ Key digits value := by
  have leading := hasLeadingZero_iff isDigits
  cases h with
  | padded zero => exact ⟨_, rfl, .text (.inl (leading.2 zero))⟩
  | tooBig overflow =>
    have ge := le_of_read (by decide) (by decide) overflow
    rw [← number_eq (by decide)] at ge
    exact ⟨_, rfl, .text (.inr ge)⟩
  | @word value noZero exact_ =>
    have plain : ¬HasLeadingZero digits := fun zero => noZero (leading.1 zero)
    have eq : value.toInt = number 10 digits := by
      rw [number_eq (by decide)]
      exact toInt_of_read (by decide) (by decide) exact_
    have lt : value.toInt < 2 ^ 63 := Int64.toInt_lt value
    refine ⟨(integerToken .offsetNumber .offsetNumber value).2, ?_, ?_⟩
    · rw [integerToken_eq_ite]
      split <;> rfl
    · rw [integerToken_eq_ite]
      split
      · rename_i small
        have same : value.toInt32.toInt = number 10 digits := by
          rw [Int64.toInt_toInt32, Int.bmod_eq_of_le (by omega) (by omega), eq]
        exact .narrow plain (by omega) (toString_of_number isDigits ne plain same)
      · exact .wide plain (by omega) (by omega) (toString_of_number isDigits ne plain eq)

end Number

/-! ## Where digits begin -/

/-- All characters of one sort that stand next to each other in a text, with what is in front of
them and behind them. -/
structure IsLongestRun (p : Char → Bool) (front run back : List Char) : Prop where
  ne_nil : run ≠ []
  all : ∀ c ∈ run, p c
  begins : ¬EndsIn p front
  ends : nextIs p back = false

theorem EndsIn.last {p : Char → Bool} {front : List Char} {c : Char} (h : EndsIn p (front ++ [c])) :
    p c := by
  obtain ⟨init, last, eq, holds⟩ := h
  obtain ⟨-, same⟩ := List.append_inj' eq rfl
  rw [(List.cons.inj same).1]
  exact holds

/-- Digits belong to a label, so none comes after it. -/
theorem not_isDigit_dropWhile (text : List Char) :
    nextIs Char.isDigit (text.dropWhile isLabelPart) = false := by
  have noLabel := not_nextIs_dropWhile isLabelPart text
  generalize text.dropWhile isLabelPart = rest at noLabel ⊢
  rcases rest with _ | ⟨c, rest⟩
  · rfl
  · exact (Bool.or_eq_false_iff.1 noLabel).2

namespace Interpolation

variable {context : Context} {text : List Char}

/-- What a step takes that stays between brackets ends in no digit, or no digit comes after it. -/
theorem AtOffset.apart {step : Step} (h : AtOffset context text step) {kind : TokenKind}
    {value : TokenValue} (token : step.token = some (kind, value)) (reads : Mode.offset.reads kind)
    (digit : nextIs Char.isDigit (text.drop step.length)) (front : List Char) :
    ¬EndsIn Char.isDigit (front ++ text.take step.length) := by
  cases h with
  | bracket begins | minus begins =>
    obtain ⟨rest, rfl⟩ := begins
    intro ends
    cases ends.last
  | closing =>
    obtain ⟨rfl, -⟩ := Step.token_inj rfl token
    cases reads
  | dollar =>
    rw [drop_emitVariable, not_isDigit_dropWhile] at digit
    cases digit
  | number _ makes =>
    rw [makes.length_eq, drop_length_takeWhile, not_nextIs_dropWhile] at digit
    cases digit
  | name =>
    change nextIs Char.isDigit (text.drop (text.takeWhile isLabelPart).length) at digit
    rw [drop_length_takeWhile, not_isDigit_dropWhile] at digit
    cases digit
  | other => cases token

end Interpolation

/-! ## Lexers between brackets -/

/-- Numbers of this kind are read between brackets. -/
theorem Context.Turn.mode_of_offsetNumber {context after : Context} {changes : List ModeChange}
    (turn : context.Turn .offsetNumber changes after) : context.mode = .offset := by
  cases turn with
  | stays doc h => rcases mode : context.mode <;> rw [mode] at h <;> first | rfl | cases h
  | enters h | closes doc h => rcases mode : context.mode <;> rw [mode] at h <;> cases h
  | opens doc h => simp [Mode.opens] at h

/-- A mode that holds no other is never one of those to return to. -/
theorem Lexer.not_mem_enclosing_advance {lexer : Lexer} {mode : Mode} (notCode : mode ≠ .code)
    (noString : ¬mode.interpolates) (h : mode ∉ lexer.context.enclosing) :
    mode ∉ lexer.advance.context.enclosing := by
  change mode ∉ lexer.step.context.enclosing
  have inner {context : Context} {modes : List Mode} (same : context.modes = modes)
      (notMem : mode ∉ modes.tail) : mode ∉ context.enclosing := by
    rw [← same] at notMem
    exact notMem
  have popped : mode ∉ lexer.context.pop.enclosing := by
    rw [Context.enclosing_pop]
    exact fun mem => h (List.mem_of_mem_tail mem)
  cases lexer.modeMove with
  | stays changes same => exact inner same h
  | enters changes plain same => exact inner same h
  | opens changes holds same =>
    refine inner same (List.not_mem_cons_of_ne_of_not_mem ?_ h)
    rintro rfl
    rcases holds with ⟨code, -⟩ | ⟨interpolates, -⟩
    · exact notCode code
    · exact noString interpolates
  | leaves changes notMarkup code quote same => exact inner same popped
  | looksOn changes name same =>
    refine inner same (List.not_mem_cons_of_ne_of_not_mem ?_ popped)
    -- what is left for code is not returned to either
    rintro rfl
    exact (Context.mode_pop _).elim notCode h

/-- A lexer that has read a front part of its source and is not in the middle of a number, if it is
between brackets. -/
structure Lexer.KeepsDigits (front : List Char) (lexer : Lexer) : Prop where
  notEnclosing : .offset ∉ lexer.context.enclosing
  apart : lexer.context.mode = .offset → nextIs Char.isDigit lexer.rest →
    ¬EndsIn Char.isDigit front

namespace Lexer

variable {lexer : Lexer} {front : List Char}

theorem mode_of_offsetNumber {value : TokenValue} (ne : lexer.rest ≠ [])
    (token : lexer.step.token = some (.offsetNumber, value)) : lexer.context.mode = .offset := by
  cases step_move ne with
  | @token kind _ made pos le turn =>
    obtain ⟨rfl, -⟩ := Step.token_inj made token
    exact turn.mode_of_offsetNumber
  | opensBody code body ne made | closesBody mode made =>
    obtain ⟨kind, -⟩ := Step.token_inj made token
    cases kind
  | reachesLabel body held le front indent made =>
    rcases made with ⟨none, -⟩ | ⟨run, made, -⟩
    · rw [none] at token
      cases token
    · obtain ⟨kind, -⟩ := Step.token_inj made token
      cases kind
  | leaves free none | looksOn mode none =>
    rw [none] at token
    cases token

theorem KeepsDigits.advance (ne : lexer.rest ≠ []) (h : lexer.KeepsDigits front) :
    lexer.advance.KeepsDigits (front ++ lexer.rest.take lexer.step.length) := by
  have notEnclosing := not_mem_enclosing_advance (by decide) (by decide) h.notEnclosing
  refine ⟨notEnclosing, fun mode digit => ?_⟩
  change nextIs Char.isDigit (lexer.rest.drop lexer.step.length) at digit
  have popped : lexer.context.pop.mode ≠ .offset := by
    intro offset
    rcases lexer.context.mode_pop with code | mem
    · rw [code] at offset
      cases offset
    · exact h.notEnclosing (offset ▸ mem)
  cases arrives_of_ne_pop ne (by decide) popped mode with
  | stays token same reads => exact (step_in_offset same ne).apart token reads digit front
  | @opens kind value token opens =>
    -- only a variable in front of a bracket leads between brackets
    obtain ⟨interpolates, rfl⟩ : lexer.context.mode.interpolates ∧ kind = .variable := by
      obtain ⟨-, mem⟩ | ⟨interpolates, mem⟩ := Mode.opener opens
      · simp [Mode.openedInCode] at mem
      · exact ⟨interpolates, by simpa [Mode.openedInString] using mem⟩
    have step := step_of_variable interpolates ne token
    have bracket := (step.ahead interpolates token).1 mode
    rcases rest : lexer.rest.drop lexer.step.length with _ | ⟨c, later⟩
    · rw [rest] at digit
      cases digit
    · rw [rest] at digit bracket
      obtain rfl := eq_of_beq bracket
      cases digit

/-- The digits of a number between brackets are as many as there are, and their value is the key
that they stand for. -/
theorem KeepsDigits.longest (h : lexer.KeepsDigits front) (ne : lexer.rest ≠ [])
    {value : TokenValue} (token : lexer.step.token = some (.offsetNumber, value)) :
    IsLongestRun Char.isDigit front (lexer.rest.take lexer.step.length)
        (lexer.rest.drop lexer.step.length) ∧
      IntegerLiteral.Key (lexer.rest.take lexer.step.length) value := by
  have mode := mode_of_offsetNumber ne token
  have apart := h.apart mode
  have step := step_in_offset mode ne
  generalize lexer.step = step at token step
  generalize lexer.rest = text at apart step
  cases step with
  | bracket | closing | minus | dollar | name =>
    obtain ⟨kind, -⟩ := Step.token_inj rfl token
    cases kind
  | number first makes =>
    have isDigits : ∀ c ∈ text.takeWhile Char.isDigit, c.isDigit :=
      List.all_eq_true.1 List.all_takeWhile
    have some := takeWhile_ne_nil first
    obtain ⟨read, made, key⟩ := makes.exists_key isDigits some
    obtain ⟨-, rfl⟩ := Step.token_inj made token
    have taken : text.take (text.takeWhile Char.isDigit).length = text.takeWhile Char.isDigit :=
      (List.prefix_iff_eq_take.1 (List.takeWhile_prefix _)).symm
    rw [makes.length_eq, taken, drop_length_takeWhile]
    exact ⟨⟨some, isDigits, apart first, not_nextIs_dropWhile Char.isDigit text⟩, key⟩
  | other => cases token

/-! ## Numbers of a scan -/

/-- **Keys are lossless.** Wherever a source has a number between the brackets of an interpolation,
the token takes a longest run of digits. Its value is the integer that is written with these digits,
in 32 bits if they hold it, or the digits as a text if they have a leading zero or denote a number
that no integer holds. The lexer starts in any context that a lexer comes to: a new one has no mode
to return to, and no step puts the mode between brackets there (`not_mem_enclosing_advance`). -/
theorem scan_keys (settings : Settings) (source : List Char) (shift : Nat) (context : Context)
    (notEnclosing : .offset ∉ context.enclosing) :
    ∀ token ∈ (start settings source shift context).scan.tokens, token.kind = .offsetNumber →
      ∃ front digits back, source = front ++ digits ++ back ∧
        token.span = ⟨shift + front.length, digits.length⟩ ∧
        IsLongestRun Char.isDigit front digits back ∧ IntegerLiteral.Key digits token.value := by
  intro token mem kind
  obtain ⟨before, later, tokens⟩ := List.append_of_mem mem
  have kept (lexer : Lexer) (ne : lexer.rest ≠ [])
      (h : ∃ front, source = front ++ lexer.rest ∧ lexer.offset = shift + front.length ∧
        lexer.KeepsDigits front) :
      ∃ front, source = front ++ lexer.advance.rest ∧
        lexer.advance.offset = shift + front.length ∧ lexer.advance.KeepsDigits front := by
    obtain ⟨front, cut, place, keeps⟩ := h
    refine ⟨_, ?_, ?_, keeps.advance ne⟩
    · change source = _ ++ lexer.rest.drop lexer.step.length
      rw [List.append_assoc, List.take_append_drop, cut]
    · change lexer.offset + lexer.step.length = _
      rw [List.length_append, List.length_take_of_le (step_length_le _), place, Nat.add_assoc]
  have begins : ∃ front, source = front ++ source ∧ shift = shift + front.length ∧
      (start settings source shift context).KeepsDigits front :=
    ⟨[], rfl, rfl, notEnclosing, fun _ _ ⟨init, c, nil, _⟩ => by simp at nil⟩
  obtain ⟨maker, ⟨front, cut, place, keeps⟩, ne, made, span, -⟩ :=
    exists_maker kept begins tokens (by rw [kind]; exact nofun)
  rw [kind] at made
  obtain ⟨longest, key⟩ := keeps.longest ne made
  refine ⟨front, maker.rest.take maker.step.length, maker.rest.drop maker.step.length, ?_, ?_,
    longest, key⟩
  · rw [List.append_assoc, List.take_append_drop, cut]
  · rw [← span, Lexer.span, place, List.length_take_of_le (step_length_le _)]

/-- A sign is a token of its own, and the number comes after it. -/
theorem scan_keys_afterMinus :
    .offset ∉ ({ mode := .offset, enclosing := [.doubleQuoted, .code] } : Context).enclosing ∧
    ⟨.offsetNumber, ⟨4, 2⟩, .integer 12⟩ ∈ (start {} "-12]".toList 3
      { mode := .offset, enclosing := [.doubleQuoted, .code] }).scan.tokens ∧
    ∃ front digits back, "-12]".toList = front ++ digits ++ back ∧
      (⟨4, 2⟩ : Span) = ⟨3 + front.length, digits.length⟩ ∧
      IsLongestRun Char.isDigit front digits back ∧
      IntegerLiteral.Key digits (.integer 12) := by
  have notEnclosing :
      .offset ∉ ({ mode := .offset, enclosing := [.doubleQuoted, .code] } : Context).enclosing := by
    decide
  have mem : ⟨.offsetNumber, ⟨4, 2⟩, .integer 12⟩ ∈ (start {} "-12]".toList 3
      { mode := .offset, enclosing := [.doubleQuoted, .code] }).scan.tokens := by
    have minus : (start {} "-12]".toList 3
        { mode := .offset, enclosing := [.doubleQuoted, .code] }).step.token =
          some (.mark .minus, .none) := rfl
    rw [scan_tokens_of_token minus (by decide)]
    refine List.mem_cons_of_mem _ ?_
    obtain ⟨later, tokens⟩ := Lexer.scan_tokens_eq (start {} "-12]".toList 3
      { mode := .offset, enclosing := [.doubleQuoted, .code] }).advance
    rw [tokens, next_of_token rfl]
    exact List.mem_cons_self
  exact ⟨notEnclosing, mem, scan_keys {} "-12]".toList 3 _ notEnclosing _ mem rfl⟩

end Lexer

end PhpFrontEnd
