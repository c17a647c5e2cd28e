import PhpFrontEnd.Proofs.NumberTokens

/-!
# Integers in a source

An integer literal denotes a number (`IntegerLiteral.number`), in the radix that it is written in
(`IntegerLiteral.Written`): a letter after a zero announces one, a leading zero means octal, and
anything else is decimal. Underscores do not count, and neither does what comes after the first
digit above seven of a literal with a leading zero.

The token of a literal holds just that number if 63 bits do, in 32 bits if possible. What does not
fit becomes a real, with a warning; a digit above seven after a leading zero is an error. Nothing
else is found at an integer (`Lexer.scan_integers`).
-/

namespace PhpFrontEnd

namespace IntegerLiteral

variable {radix : Nat} {literal digits : List Char}

/-! ## The number of a literal -/

/-- The number that digits denote in a radix, underscores left out, up to the first that is no digit
of that radix. -/
def number (radix : Nat) (digits : List Char) : Nat :=
  Escape.valueOf radix ((digits.filter (· ≠ '_')).takeWhile (isDigitOf radix))

/-- Digits and underscores only. -/
def IsPlain (literal : List Char) : Prop := ∀ c ∈ literal, c.isDigit ∨ c = '_'

/-- Several digits, of which the first is a zero. -/
def HasLeadingZero (literal : List Char) : Prop :=
  IsPlain literal ∧ literal.head? = some '0' ∧ 1 < literal.countP Char.isDigit

instance (literal : List Char) : Decidable (IsPlain literal) := List.decidableBAll _ literal

instance (literal : List Char) : Decidable (HasLeadingZero literal) :=
  inferInstanceAs (Decidable (IsPlain literal ∧ literal.head? = some '0' ∧
    1 < literal.countP Char.isDigit))

/-- How an integer literal is written: the radix and the digits that count. -/
inductive Written : List Char → Nat → List Char → Prop where
  | announced {letter : Char} {radix : Nat} (mem : (letter, radix) ∈ Number.radixLetters)
      (digits : List Char) : Written ('0' :: letter :: digits) radix digits
  | leadingZero {literal : List Char} (h : HasLeadingZero literal) : Written literal 8 literal
  | decimal {literal : List Char} (plain : IsPlain literal) (h : ¬HasLeadingZero literal) :
      Written literal 10 literal

/-- The narrowest token that holds a number. -/
inductive Holds (n : Nat) : TokenKind → TokenValue → Prop where
  | narrow {value : Int32} (lt : n < 2 ^ 31) (eq : value.toInt = n) :
      Holds n .integer (.integer value)
  | wide {value : Int64} (ge : 2 ^ 31 ≤ n) (lt : n < 2 ^ 63) (eq : value.toInt = n) :
      Holds n .wideInteger (.wideInteger value)
  | real {value : Float} (ge : 2 ^ 63 ≤ n) : Holds n .real (.real value)

/-- The problem with a digit above seven after a leading zero. -/
def invalidDigit (literal : List Char) : List LexError :=
  if HasLeadingZero literal ∧ ('8' ∈ literal ∨ '9' ∈ literal) then
    [.invalidNumber (String.ofList literal)]
  else []

/-- The problem with a number that 63 bits do not hold. -/
def tooBig (literal : List Char) (n : Nat) : List LexError :=
  if 2 ^ 63 ≤ n then [.integerTooBig (String.ofList literal)] else []

/-- What a token and the problems at its place tell of a literal that denotes a number. -/
structure Tells (literal : List Char) (n : Nat) (kind : TokenKind) (value : TokenValue)
    (errors : List LexError) : Prop where
  holds : Holds n kind value
  errors_eq : errors = invalidDigit literal ++ tooBig literal n

theorem valueFrom_digitValues (radix n : Nat) (text : List Char) :
    valueFrom radix n (digitValues radix text) =
      (text.takeWhile (isDigitOf radix)).foldl
        (fun n c => n * radix + (digitValue? radix c).getD 0) n := by
  induction text generalizing n with
  | nil => rfl
  | cons c rest ih =>
    rcases value : digitValue? radix c with _ | d
    · have none : ¬isDigitOf radix c := by simp [isDigitOf, value]
      rw [digitValues, value, List.takeWhile_cons_of_neg none]
      rfl
    · have some : isDigitOf radix c := by simp [isDigitOf, value]
      rw [digitValues, value, List.takeWhile_cons_of_pos some, List.foldl_cons, value]
      exact ih _

/-- Leaving out leading zeros makes no difference. -/
theorem number_eq (pos : 0 < radix) (digits : List Char) :
    number radix digits = valueFrom radix 0 (significantDigits radix digits) := by
  rw [valueFrom_significantDigits pos, valueFrom_digitValues]
  rfl

end IntegerLiteral

namespace Number

open IntegerLiteral

variable {context : Context} {radix : Nat} {literal digits : List Char}

/-! ## Steps at an integer -/

/-- A token made of a word holds the number of that word. -/
theorem holds_of_exact {value : Int64} {n : Nat} (eq : value.toInt = n) :
    Holds n (integerToken .integer .wideInteger value).1
      (integerToken .integer .wideInteger value).2 := by
  have lt : value.toInt < 2 ^ 63 := Int64.toInt_lt value
  rw [integerToken_eq_ite]
  split
  · rename_i narrow
    refine .narrow (by omega) ?_
    rw [Int64.toInt_toInt32, Int.bmod_eq_of_le (by omega) (by omega), eq]
  · exact .wide (by omega) (by omega) eq

/-- An integer is taken as the number that its digits denote. -/
theorem emitInteger_holds (context : Context) (pos : 0 < radix) (small : radix < 2 ^ 63)
    (literal digits : List Char) :
    ∃ kind value, (emitInteger context radix literal digits).token = some (kind, value) ∧
      Holds (number radix digits) kind value ∧
      (emitInteger context radix literal digits).errors =
        tooBig literal (number radix digits) := by
  rw [number_eq pos, emitInteger, tooBig]
  split
  · rename_i value exact_
    have eq := toInt_of_read pos small exact_
    have lt : value.toInt < 2 ^ 63 := Int64.toInt_lt value
    refine ⟨_, _, rfl, holds_of_exact eq, ?_⟩
    rw [if_neg (by omega)]
  · rename_i value overflow
    have ge := le_of_read pos small overflow
    refine ⟨_, _, rfl, .real ge, ?_⟩
    rw [if_pos ge]

theorem Run.isPlain (run : Run 10 digits) : IsPlain digits := by
  intro c mem
  rw [← isDigitOf_ten_eq]
  exact run.mem c mem

/-- A run has several digits if it has several characters. -/
theorem Run.hasLeadingZero_iff (run : Run 10 digits) (first : nextIs Char.isDigit digits) :
    HasLeadingZero digits ↔ 1 < digits.length ∧ digits.head? = some '0' := by
  constructor
  · rintro ⟨-, zero, several⟩
    exact ⟨Nat.lt_of_lt_of_le several List.countP_le_length, zero⟩
  · rintro ⟨several, zero⟩
    refine ⟨run.isPlain, zero, ?_⟩
    cases run with
    | nil => cases first
    | @digit c rest h run =>
      have digit : c.isDigit := first
      rw [List.countP_cons_of_pos digit, Nat.lt_add_left_iff_pos, List.countP_pos_iff]
      cases run with
      | nil => exact absurd several (Nat.lt_irrefl 1)
      | digit second run =>
        rw [isDigitOf_ten_eq] at second
        exact ⟨_, List.mem_cons_self, second⟩
      | underscore next run =>
        rw [isDigitOf_ten_eq] at next
        exact ⟨_, List.mem_cons_of_mem _ List.mem_cons_self, next⟩
    | underscore next run => cases first

/-- An integer without a letter is octal if it has a leading zero, and decimal otherwise. -/
theorem emitPlain_tells (context : Context) (run : Run 10 digits)
    (first : nextIs Char.isDigit digits) (h : Written digits radix digits) :
    ∃ kind value, (emitPlain context digits).token = some (kind, value) ∧
      Tells digits (number radix digits) kind value (emitPlain context digits).errors := by
  have leading := run.hasLeadingZero_iff first
  have high : digits.any (fun c => c == '8' || c == '9') ↔ '8' ∈ digits ∨ '9' ∈ digits := by
    simp [and_or_left, exists_or]
  rw [emitPlain]
  cases h with
  | leadingZero zero =>
    obtain ⟨kind, value, token, holds, errors⟩ :=
      emitInteger_holds context (by decide : 0 < 8) (by decide) digits digits
    rw [if_pos (leading.1 zero)]
    dsimp only
    split
    · rename_i invalid
      refine ⟨kind, value, token, holds, ?_⟩
      rw [invalidDigit, if_pos ⟨zero, high.1 invalid⟩, ← errors]
      rfl
    · rename_i valid
      refine ⟨kind, value, token, holds, ?_⟩
      rw [errors, invalidDigit, if_neg fun invalid => valid (high.2 invalid.2)]
      rfl
  | decimal plain none =>
    obtain ⟨kind, value, token, holds, errors⟩ :=
      emitInteger_holds context (by decide : 0 < 10) (by decide) digits digits
    rw [if_neg fun zero => none (leading.2 zero)]
    refine ⟨kind, value, token, holds, ?_⟩
    rw [errors, invalidDigit, if_neg fun invalid => none invalid.1]
    rfl

/-! ## Which literals are integers -/

/-- A literal that announces its radix is not written in plain digits. -/
theorem not_isPlain_announced {letter : Char} (mem : (letter, radix) ∈ radixLetters) :
    ¬IsPlain ('0' :: letter :: digits) := by
  have letters : ∀ entry ∈ radixLetters, ¬(entry.1.isDigit ∨ entry.1 = '_') := by decide
  intro plain
  exact letters _ mem (plain letter (by simp))

/-- A literal that announces its radix is an integer in that radix and nothing else. -/
theorem written_announced {letter : Char} {other : Nat} {rest : List Char}
    (mem : (letter, radix) ∈ radixLetters) (h : Written ('0' :: letter :: digits) other rest) :
    other = radix ∧ rest = digits := by
  cases h with
  | announced mem' =>
    have once : ∀ a ∈ radixLetters, ∀ b ∈ radixLetters, a.1 = b.1 → a.2 = b.2 := by decide
    exact ⟨once _ mem' _ mem rfl, rfl⟩
  | leadingZero zero => exact absurd zero.1 (not_isPlain_announced mem)
  | decimal plain => exact absurd plain (not_isPlain_announced mem)

/-- A literal of the characters of a real does not announce a radix. -/
theorem isPlain_of_written (chars : ∀ c ∈ literal, isRealChar c)
    (h : Written literal radix digits) : IsPlain literal ∧ digits = literal := by
  cases h with
  | @announced letter radix mem digits =>
    have letters : ∀ entry ∈ radixLetters, isRealChar entry.1 = false := by decide
    have real := chars letter (by simp)
    rw [letters _ mem] at real
    cases real
  | leadingZero zero => exact ⟨zero.1, rfl⟩
  | decimal plain => exact ⟨plain, rfl⟩

theorem Fraction.eq_nil {fraction : List Char} (h : Fraction fraction) (plain : IsPlain fraction) :
    fraction = [] := by
  cases h with
  | none => rfl
  | point => exact absurd (plain '.' List.mem_cons_self) (by decide)

theorem Exponent.eq_nil {exponent : List Char} (h : Exponent exponent) (plain : IsPlain exponent) :
    exponent = [] := by
  cases h with
  | none => rfl
  | @unsigned e digits letter | @signed e sign digits letter =>
    have digit := plain e List.mem_cons_self
    rcases letter with rfl | rfl <;> exact absurd digit (by decide)

/-- The step at an integer literal makes the token of its number. -/
theorem Reading.tells {step : Step} (reading : Reading context literal step)
    (h : Written literal radix digits) : ∃ kind value, step.token = some (kind, value) ∧
      Tells literal (number radix digits) kind value step.errors := by
  cases reading with
  | @announced letter announced rest mem first run =>
    obtain ⟨rfl, rfl⟩ := written_announced mem h
    have small : ∀ entry ∈ radixLetters, 0 < entry.2 ∧ entry.2 < 2 ^ 63 := by decide
    obtain ⟨pos, lt⟩ := small _ mem
    obtain ⟨kind, value, token, holds, errors⟩ :=
      emitInteger_holds context pos lt ('0' :: letter :: digits) digits
    refine ⟨kind, value, token, holds, ?_⟩
    rw [errors, invalidDigit, if_neg fun invalid => not_isPlain_announced mem invalid.1.1]
    rfl
  | plain first run =>
    obtain ⟨-, rfl⟩ := isPlain_of_written run.isRealChar h
    exact emitPlain_tells context run first h
  | @real whole fraction exponent run isFraction isExponent first ne =>
    -- what has neither a point nor an exponent is no real
    obtain ⟨plain, -⟩ := isPlain_of_written (run.isRealChar_append isFraction isExponent) h
    have noFraction := isFraction.eq_nil fun c mem => plain c (by simp [mem])
    have noExponent := isExponent.eq_nil fun c mem => plain c (by simp [mem])
    exact absurd (by rw [noFraction, noExponent]; rfl) ne

end Number

/-! ## Integers of a scan -/

open IntegerLiteral in
/-- **Integers are exact.** Whatever else is in a source, the token of an integer literal holds the
number that the literal denotes, as narrow as it can be, or is a real if 63 bits do not hold it.
That is reported, and so is a digit above seven after a leading zero; nothing else is found
there. -/
theorem Lexer.scan_integers (settings : Settings) (source : List Char) (shift : Nat)
    (context : Context) : ∀ token ∈ (start settings source shift context).scan.tokens,
      token.kind.isNumber → ∀ radix digits, Written (token.span.slice shift source) radix digits →
        Tells (token.span.slice shift source) (number radix digits) token.kind token.value
          ((start settings source shift context).scan.errorsAt token.span) := by
  intro token mem isNumber radix digits written
  obtain ⟨context, step, reading, made, errors⟩ := (within_start context).number mem isNumber
  obtain ⟨kind, value, made', tells⟩ := reading.tells written
  obtain ⟨rfl, rfl⟩ := Step.token_inj made' made
  rw [errors]
  exact tells

/-- A leading zero, and a digit that ends the number and is an error. -/
theorem Lexer.scan_integers_octal :
    ⟨.integer, ⟨3, 4⟩, .integer 7⟩ ∈
      (start {} "0_79;".toList 3 { mode := .code }).scan.tokens ∧
    IntegerLiteral.Written "0_79".toList 8 "0_79".toList ∧
    IntegerLiteral.Tells "0_79".toList 7 .integer (.integer 7)
      ((start {} "0_79;".toList 3 { mode := .code }).scan.errorsAt ⟨3, 4⟩) := by
  have mem : ⟨.integer, ⟨3, 4⟩, .integer 7⟩ ∈
      (start {} "0_79;".toList 3 { mode := .code }).scan.tokens := by
    obtain ⟨later, tokens⟩ := (start {} "0_79;".toList 3 { mode := .code }).scan_tokens_eq
    rw [tokens, next_of_token rfl]
    exact List.mem_cons_self
  have written : IntegerLiteral.Written "0_79".toList 8 "0_79".toList :=
    .leadingZero (by decide)
  exact ⟨mem, written, scan_integers {} "0_79;".toList 3 { mode := .code } _ mem rfl 8 _ written⟩

end PhpFrontEnd
