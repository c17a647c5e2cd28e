import Mathlib.Algebra.Field.Rat
import Mathlib.Tactic.FieldSimp
import Mathlib.Tactic.Ring
import PhpFrontEnd.Proofs.IntegerTokens

/-!
# Reals in a source

A decimal numeral (`Decimal.Numeral`) is digits with a point among them or at one end, or an
exponent after them, and it denotes a rational number (`Decimal.Numeral.value`). Every numeral can
be read, and what is read is that number exactly: a whole number times a power of ten
(`Decimal.Numeral.read?_text`, `Decimal.Numeral.digits_mul`).

The step at a number takes a literal with a point or an exponent in several parts, each of which may
be missing and may have underscores in it. With the underscores left out, the parts always make up a
numeral (`Number.exists_numeral`). So the value of the token is the float nearest to a number that
is written there, never the zero that stands for a text that cannot be read
(`Lexer.scan_reals`).
-/

namespace PhpFrontEnd

namespace Decimal

/-! ## Numerals -/

/-- A letter that announces an exponent, a sign if there is one, and digits. -/
structure Power where
  letter : Char
  sign : Option Char
  digits : List Char
  isLetter : letter = 'e' ∨ letter = 'E'
  isSign : ∀ c ∈ sign, c = '+' ∨ c = '-'
  isDigits : ∀ c ∈ digits, c.isDigit
  ne_nil : digits ≠ []

namespace Power

/-- How an exponent is written. -/
def text (power : Power) : List Char := power.letter :: (power.sign.toList ++ power.digits)

/-- The whole number that an exponent denotes. -/
def value (power : Power) : Int :=
  if power.sign = some '-' then -ofDigits power.digits else ofDigits power.digits

end Power

/-- A decimal numeral: digits, then more of them after a point, then an exponent. The point or the
exponent may be missing, and there may be no digits on one side of the point. -/
structure Numeral where
  whole : List Char
  /-- the digits after the point, if there is one -/
  fraction : Option (List Char)
  power : Option Power
  isDigits : ∀ c ∈ whole ++ fraction.getD [], c.isDigit
  hasDigit : whole ++ fraction.getD [] ≠ []
  isReal : fraction.isSome ∨ power.isSome

/-- A point and the digits after it, if there is a point. -/
def fractionText (fraction : Option (List Char)) : List Char :=
  (fraction.map ('.' :: ·)).getD []

/-- An exponent, if there is one. -/
def powerText (power : Option Power) : List Char := (power.map Power.text).getD []

namespace Numeral

/-- How a numeral is written. -/
def text (numeral : Numeral) : List Char :=
  numeral.whole ++ fractionText numeral.fraction ++ powerText numeral.power

/-- The digits on both sides of the point. -/
def digits (numeral : Numeral) : List Char := numeral.whole ++ numeral.fraction.getD []

/-- The exponent as it is written; zero if there is none. -/
def exponent (numeral : Numeral) : Int := (numeral.power.map Power.value).getD 0

/-- The number that a numeral denotes. A digit after the point counts for a tenth of what it would
count for one place before. -/
def value (numeral : Numeral) : ℚ :=
  (ofDigits numeral.whole
    + ofDigits (numeral.fraction.getD []) / 10 ^ (numeral.fraction.getD []).length)
    * 10 ^ numeral.exponent

/-- What is read of a numeral, next to its digits: the power of ten that they are to be multiplied
by if all of them are taken for one whole number. -/
def shifted (numeral : Numeral) : Int :=
  numeral.exponent - (numeral.fraction.getD []).length

end Numeral

/-! ## What digits denote -/

theorem foldl_digits (digits : List Char) (n : Nat) :
    digits.foldl (fun n c => n * 10 + (c.toNat - '0'.toNat)) n =
      n * 10 ^ digits.length + ofDigits digits := by
  induction digits generalizing n with
  | nil => simp [ofDigits]
  | cons c rest ih =>
    rw [ofDigits, List.foldl_cons, List.foldl_cons, ih, ih (0 * 10 + _), List.length_cons]
    ring

/-- Digits that come later count for less. -/
theorem ofDigits_append (digits more : List Char) :
    ofDigits (digits ++ more) = ofDigits digits * 10 ^ more.length + ofDigits more := by
  rw [ofDigits, List.foldl_append, foldl_digits]
  rfl

/-- All digits as one whole number, and the power of ten that goes with them, make up the number
that a numeral denotes. -/
theorem Numeral.digits_mul (numeral : Numeral) :
    (ofDigits numeral.digits : ℚ) * 10 ^ numeral.shifted = numeral.value := by
  have ten : (10 : ℚ) ≠ 0 := by norm_num
  rw [value, shifted, digits, ofDigits_append, zpow_sub₀ ten, zpow_natCast]
  push_cast
  field_simp

/-! ## Numerals are read -/

theorem isDigit_ne {c d : Char} (h : c.isDigit) (other : d.isDigit = false) : c ≠ d := by
  rintro rfl
  rw [other] at h
  cases h

/-- A text goes on after its digits with what is no digit. -/
theorem takeWhile_isDigit_append {digits rest : List Char} (isDigits : ∀ c ∈ digits, c.isDigit)
    (ends : nextIs Char.isDigit rest = false) :
    (digits ++ rest).takeWhile Char.isDigit = digits ∧
      (digits ++ rest).dropWhile Char.isDigit = rest := by
  rw [List.takeWhile_append_of_pos isDigits, List.dropWhile_append_of_pos isDigits]
  rcases rest with _ | ⟨c, later⟩
  · simp
  · have no : ¬c.isDigit := by
      intro yes
      rw [nextIs, yes] at ends
      cases ends
    simp [no]

theorem powerText_ends (power : Option Power) : nextIs Char.isDigit (powerText power) = false := by
  rcases power with _ | power
  · rfl
  · rcases power.isLetter with letter | letter <;> simp [powerText, Power.text, letter, nextIs]

theorem Power.readExponent? (power : Power) :
    Decimal.readExponent? (power.sign.toList ++ power.digits) = some power.value := by
  have all : (!power.digits.isEmpty && power.digits.all Char.isDigit) = true := by
    simpa [power.ne_nil] using power.isDigits
  obtain ⟨letter, sign, digits, isLetter, isSign, isDigits, ne⟩ := power
  dsimp only at all ⊢
  rcases sign with _ | sign
  · -- the first digit is no sign
    obtain ⟨c, rest, rfl⟩ := List.exists_cons_of_ne_nil ne
    have digit := isDigits c List.mem_cons_self
    rw [Option.toList_none, List.nil_append, Decimal.readExponent?, if_pos all]
    · rfl
    · rintro _ ⟨⟩
      cases digit
    · rintro _ ⟨⟩
      cases digit
  · rcases isSign sign rfl with rfl | rfl
    · rw [Option.toList_some, List.singleton_append, Decimal.readExponent?, if_pos all]
      rfl
    · rw [Option.toList_some, List.singleton_append, Decimal.readExponent?, if_pos all]
      rfl

/-- What is read at the end of a numeral, after its digits are known. -/
def readPower? (digits : Nat) (shift : Int) : List Char → Option Magnitude
  | [] => some (.finite digits (-shift))
  | e :: rest =>
    if e = 'e' ∨ e = 'E' then
      (readExponent? rest).map fun exponent => .finite digits (exponent - shift)
    else none

theorem readPower?_powerText (digits : Nat) (shift : Int) (power : Option Power) :
    readPower? digits shift (powerText power) =
      some (.finite digits ((power.map Power.value).getD 0 - shift)) := by
  rcases power with _ | power
  · simp [readPower?, powerText]
  · simp [readPower?, powerText, Power.text, power.isLetter, power.readExponent?]

/-- Digits without a point. -/
theorem readFinite?_whole {whole rest : List Char} (isDigits : ∀ c ∈ whole, c.isDigit)
    (ne : whole ≠ []) (ends : nextIs Char.isDigit rest = false) (noPoint : rest.head? ≠ some '.') :
    readFinite? (whole ++ rest) = readPower? (ofDigits whole) 0 rest := by
  obtain ⟨take, drop⟩ := takeWhile_isDigit_append isDigits ends
  rw [readFinite?, take, drop]
  rcases rest with _ | ⟨c, later⟩
  · simp [ne, readPower?]
  · have other : c ≠ '.' := by simpa using noPoint
    simp [ne, readPower?, other]

/-- Digits on both sides of a point. -/
theorem readFinite?_point {whole fraction rest : List Char} (isWhole : ∀ c ∈ whole, c.isDigit)
    (isFraction : ∀ c ∈ fraction, c.isDigit) (ne : whole ++ fraction ≠ [])
    (ends : nextIs Char.isDigit rest = false) :
    readFinite? (whole ++ '.' :: (fraction ++ rest)) =
      readPower? (ofDigits (whole ++ fraction)) fraction.length rest := by
  obtain ⟨take, drop⟩ := takeWhile_isDigit_append isWhole
    (rfl : nextIs Char.isDigit ('.' :: (fraction ++ rest)) = false)
  obtain ⟨takeMore, dropMore⟩ := takeWhile_isDigit_append isFraction ends
  have some_ : (whole ++ fraction).isEmpty = false := List.isEmpty_eq_false_iff.2 ne
  rw [readFinite?, take, drop]
  simp only [takeMore, dropMore, some_]
  rfl

/-- A numeral is read as all its digits with the power of ten that goes with them. -/
theorem Numeral.readFinite?_text (numeral : Numeral) :
    readFinite? numeral.text = some (.finite (ofDigits numeral.digits) numeral.shifted) := by
  obtain ⟨whole, fraction, power, isDigits, ne, -⟩ := numeral
  obtain ⟨isWhole, isFraction⟩ := List.forall_mem_append.1 isDigits
  have ends := powerText_ends power
  rw [text, digits, shifted, exponent, ← readPower?_powerText]
  rcases fraction with _ | fraction
  · have noPoint : (powerText power).head? ≠ some '.' := by
      rcases power with _ | power
      · simp [powerText]
      · rcases power.isLetter with letter | letter <;> simp [powerText, Power.text, letter]
    rw [Option.getD_none, List.append_nil] at ne
    simpa [fractionText] using readFinite?_whole isWhole ne ends noPoint
  · simpa [fractionText] using readFinite?_point isWhole isFraction ne ends

/-- A numeral begins with a digit or a point. -/
theorem Numeral.exists_text_eq (numeral : Numeral) :
    ∃ c rest, numeral.text = c :: rest ∧ (c.isDigit ∨ c = '.') := by
  obtain ⟨whole, fraction, power, isDigits, ne, -⟩ := numeral
  rcases whole with _ | ⟨c, whole⟩
  · rcases fraction with _ | fraction
    · exact absurd rfl ne
    · exact ⟨'.', fraction ++ powerText power, rfl, .inr rfl⟩
  · exact ⟨c, whole ++ fractionText fraction ++ powerText power, rfl,
      .inl (isDigits c List.mem_cons_self)⟩

/-- Every numeral can be read. It has no sign. -/
theorem Numeral.read?_text (numeral : Numeral) : read? numeral.text =
    some ⟨false, .finite (ofDigits numeral.digits) numeral.shifted⟩ := by
  have magnitude := numeral.readFinite?_text
  obtain ⟨c, rest, eq, first⟩ := numeral.exists_text_eq
  rw [eq] at magnitude ⊢
  rw [read?, readMagnitude?, magnitude]
  · rfl
  -- neither a digit nor a point is a sign
  · rintro _ ⟨⟩
    exact absurd first (by decide)
  · rintro _ ⟨⟩
    exact absurd first (by decide)

end Decimal

namespace Number

open Decimal

variable {literal digits : List Char}

/-! ## Literals without their underscores -/

/-- A run without its underscores is digits. -/
theorem Run.isDigit_of_mem_filter (run : Run 10 digits) :
    ∀ c ∈ digits.filter (· ≠ '_'), c.isDigit := by
  intro c mem
  obtain ⟨mem, other⟩ := List.mem_filter.1 mem
  exact (run.isPlain c mem).resolve_right (of_decide_eq_true other)

/-- The digit at the front of a run is not left out. -/
theorem filter_ne_nil (first : nextIs Char.isDigit digits) : digits.filter (· ≠ '_') ≠ [] := by
  rcases digits with _ | ⟨c, rest⟩
  · cases first
  · have other : c ≠ '_' := isDigit_ne first rfl
    simp [other]

theorem Fraction.exists_fractionText {fraction : List Char} (h : Fraction fraction) :
    ∃ digits : Option (List Char), fraction.filter (· ≠ '_') = fractionText digits ∧
      (∀ c ∈ digits.getD [], c.isDigit) ∧
      (nextIs Char.isDigit (fraction.drop 1) → digits.getD [] ≠ []) ∧
      (fraction ≠ [] → digits.isSome) := by
  cases h with
  | none =>
    refine ⟨.none, rfl, fun _ mem => absurd mem List.not_mem_nil, ?_, fun ne => absurd rfl ne⟩
    rintro ⟨⟩
  | @point digits run =>
    exact ⟨some (digits.filter (· ≠ '_')), rfl, run.isDigit_of_mem_filter, filter_ne_nil,
      fun _ => rfl⟩

theorem Exponent.exists_powerText {exponent : List Char} (h : Exponent exponent) :
    ∃ power : Option Power, exponent.filter (· ≠ '_') = powerText power ∧
      (exponent ≠ [] → power.isSome) := by
  cases h with
  | none => exact ⟨.none, rfl, fun ne => absurd rfl ne⟩
  | @unsigned e digits letter first run =>
    refine ⟨some ⟨e, .none, digits.filter (· ≠ '_'), letter, ?_, run.isDigit_of_mem_filter,
      filter_ne_nil first⟩, ?_, fun _ => rfl⟩
    · rintro _ ⟨⟩
    · rcases letter with rfl | rfl <;> rfl
  | @signed e sign digits letter isSign first run =>
    refine ⟨some ⟨e, some sign, digits.filter (· ≠ '_'), letter, ?_,
      run.isDigit_of_mem_filter, filter_ne_nil first⟩, ?_, fun _ => rfl⟩
    · rintro _ ⟨⟩
      exact isSign
    · rcases letter with rfl | rfl <;> rcases isSign with rfl | rfl <;> rfl

/-- The parts of a literal with a point or an exponent make up a numeral, underscores left out. -/
theorem exists_numeral {whole fraction exponent : List Char} (run : Run 10 whole)
    (isFraction : Fraction fraction) (isExponent : Exponent exponent)
    (first : nextIs Char.isDigit whole ∨ whole = [] ∧ nextIs Char.isDigit (fraction.drop 1))
    (ne : fraction ++ exponent ≠ []) :
    ∃ numeral : Numeral, (whole ++ fraction ++ exponent).filter (· ≠ '_') = numeral.text := by
  obtain ⟨digits, fractionEq, isDigits, someDigits, isPoint⟩ := isFraction.exists_fractionText
  obtain ⟨power, exponentEq, isPower⟩ := isExponent.exists_powerText
  refine ⟨⟨whole.filter (· ≠ '_'), digits, power, ?_, ?_, ?_⟩, ?_⟩
  · exact List.forall_mem_append.2 ⟨run.isDigit_of_mem_filter, isDigits⟩
  · intro nil
    obtain ⟨noWhole, noFraction⟩ := List.append_eq_nil_iff.1 nil
    rcases first with first | ⟨-, first⟩
    · exact filter_ne_nil first noWhole
    · exact someDigits first noFraction
  · by_cases none_ : fraction = []
    · exact .inr (isPower fun nil => ne (by rw [none_, nil]; rfl))
    · exact .inl (isPoint none_)
  · rw [List.filter_append, List.filter_append, fractionEq, exponentEq]
    rfl

/-- A literal with a point or an exponent is no integer, and any other one is. -/
theorem Reading.exists_numeral {context : Context} {step : Step}
    (reading : Reading context literal step)
    (real : ¬∃ radix digits, IntegerLiteral.Written literal radix digits) :
    step = emitReal context literal ∧
      ∃ numeral : Numeral, literal.filter (· ≠ '_') = numeral.text := by
  cases reading with
  | announced mem => exact absurd ⟨_, _, .announced mem _⟩ real
  | plain first run =>
    by_cases zero : IntegerLiteral.HasLeadingZero literal
    · exact absurd ⟨_, _, .leadingZero zero⟩ real
    · exact absurd ⟨_, _, .decimal run.isPlain zero⟩ real
  | real run isFraction isExponent first ne =>
    exact ⟨rfl, Number.exists_numeral run isFraction isExponent first ne⟩

/-- The step at a numeral takes it for the float nearest to the number that it denotes. -/
theorem emitReal_eq (context : Context) {numeral : Numeral}
    (h : literal.filter (· ≠ '_') = numeral.text) :
    emitReal context literal =
      { length := literal.length
        token := some (.real, .real (toFloat (ofDigits numeral.digits) numeral.shifted))
        context
        errors :=
          if (toFloat (ofDigits numeral.digits) numeral.shifted).isInf then
            [.realTooBig (String.ofList literal)]
          else [] } := by
  have read : RealLiteral.read literal =
      ⟨toFloat (ofDigits numeral.digits) numeral.shifted,
        (toFloat (ofDigits numeral.digits) numeral.shifted).isInf⟩ := by
    rw [RealLiteral.read, h, numeral.read?_text]
    rfl
  rw [emitReal, read]

end Number

/-! ## Reals of a scan -/

open Decimal IntegerLiteral in
/-- **Reals are always readable.** Whatever else is in a source, the token of a real that is no
integer literal takes a decimal numeral, underscores left out. It is read as the number that it
denotes, and the token holds the float nearest to that number. The one thing that may be found there
is that this float is an infinity. -/
theorem Lexer.scan_reals (settings : Settings) (source : List Char) (shift : Nat)
    (context : Context) : ∀ token ∈ (start settings source shift context).scan.tokens,
      token.kind = .real →
      (¬∃ radix digits, Written (token.span.slice shift source) radix digits) →
      ∃ numeral : Numeral,
        (token.span.slice shift source).filter (· ≠ '_') = numeral.text ∧
        ∃ digits exponent, read? numeral.text = some ⟨false, .finite digits exponent⟩ ∧
          (digits : ℚ) * 10 ^ exponent = numeral.value ∧
          token.value = .real (toFloat digits exponent) ∧
          (start settings source shift context).scan.errorsAt token.span =
            if (toFloat digits exponent).isInf then
              [.realTooBig (String.ofList (token.span.slice shift source))]
            else [] := by
  intro token mem isReal noInteger
  have isNumber : token.kind.isNumber := by rw [isReal]; rfl
  obtain ⟨context, step, reading, made, errors⟩ := (within_start context).number mem isNumber
  obtain ⟨rfl, numeral, eq⟩ := reading.exists_numeral noInteger
  rw [Number.emitReal_eq context eq] at made errors
  obtain ⟨-, value⟩ := Prod.mk.inj (Option.some.inj made)
  exact ⟨numeral, eq, ofDigits numeral.digits, numeral.shifted, numeral.read?_text,
    numeral.digits_mul, value.symm, errors⟩

open Decimal IntegerLiteral in
/-- All parts, an underscore among them. -/
theorem Lexer.scan_reals_parts :
    ⟨.real, ⟨3, 8⟩, .real (toFloat 105 2)⟩ ∈
      (start {} "1_0.5e+3;".toList 3 { mode := .code }).scan.tokens ∧
    (¬∃ radix digits, Written "1_0.5e+3".toList radix digits) ∧
    ∃ numeral : Numeral, "10.5e+3".toList = numeral.text ∧
      ∃ digits exponent, read? numeral.text = some ⟨false, .finite digits exponent⟩ ∧
        (digits : ℚ) * 10 ^ exponent = numeral.value ∧
        TokenValue.real (toFloat 105 2) = .real (toFloat digits exponent) ∧
        (start {} "1_0.5e+3;".toList 3 { mode := .code }).scan.errorsAt ⟨3, 8⟩ =
          if (toFloat digits exponent).isInf then [.realTooBig "1_0.5e+3"] else [] := by
  have mem : ⟨.real, ⟨3, 8⟩, .real (toFloat 105 2)⟩ ∈
      (start {} "1_0.5e+3;".toList 3 { mode := .code }).scan.tokens := by
    obtain ⟨later, tokens⟩ := (start {} "1_0.5e+3;".toList 3 { mode := .code }).scan_tokens_eq
    rw [tokens, next_of_token rfl]
    exact List.mem_cons_self
  have noInteger : ¬∃ radix digits, Written "1_0.5e+3".toList radix digits := by
    rintro ⟨radix, digits, written⟩
    obtain ⟨plain, -⟩ := Number.isPlain_of_written (List.all_eq_true.1 (by decide)) written
    exact absurd plain (by decide)
  exact ⟨mem, noInteger, scan_reals {} "1_0.5e+3;".toList 3 { mode := .code } _ mem rfl noInteger⟩

end PhpFrontEnd
