import PhpFrontEnd.Lexer.Step
import PhpFrontEnd.Literal.Integer
import PhpFrontEnd.Literal.Real

/-!
# Numbers

A number with a point or an exponent is a real literal, anything else an integer in the radix that
its beginning announces: hexadecimal, binary and octal after `0x`, `0b` and `0o`, octal after a
leading zero, decimal otherwise. Underscores may stand between digits.

An integer makes a token of the narrowest kind that holds it, and a real token if none does.
-/

namespace PhpFrontEnd.Number

/-- Whether a number begins at the front of a text. -/
def beginsAt : List Char → Bool
  | c :: rest => c.isDigit || (c == '.' && nextIs Char.isDigit rest)
  | [] => false

/-- The number of characters that are digits, or underscores before a digit. -/
def digitsLength (radix : Nat) : List Char → Nat
  | [] => 0
  | c :: rest =>
    if isDigitOf radix c || (c == '_' && nextIs (isDigitOf radix) rest) then
      digitsLength radix rest + 1
    else 0

/-- A digit in front is taken. -/
theorem digitsLength_pos {radix : Nat} {text : List Char}
    (h : nextIs (isDigitOf radix) text) : 0 < digitsLength radix text := by
  cases text with
  | nil => simp [nextIs] at h
  | cons c rest => simp_all [nextIs, digitsLength]

/-- The token of an integer: `kind` if 32 bits hold it, else `wide`. -/
def integerToken (kind wide : TokenKind) (value : Int64) : TokenKind × TokenValue :=
  if value.toInt ≤ Int32.maxValue.toInt then (kind, .integer value.toInt32)
  else (wide, .wideInteger value)

/-- An integer token is of one of two kinds. -/
theorem integerToken_eq (kind wide : TokenKind) (value : Int64) :
    ∃ read, integerToken kind wide value = (kind, read) ∨
      integerToken kind wide value = (wide, read) := by
  rw [integerToken]
  split
  · exact ⟨_, .inl rfl⟩
  · exact ⟨_, .inr rfl⟩

/-- Takes an integer literal, whose digits may be only a part of it. -/
def emitInteger (context : Context) (radix : Nat) (literal digits : List Char) : Step :=
  match IntegerLiteral.read radix digits with
  | .exact value =>
    { length := literal.length
      token := some (integerToken .integer .wideInteger value)
      context }
  | .overflow value =>
    { length := literal.length
      token := some (.real, .real value)
      context
      errors := [.integerTooBig (String.ofList literal)] }

/-- Takes a real literal. -/
def emitReal (context : Context) (literal : List Char) : Step :=
  let read := RealLiteral.read literal
  { length := literal.length
    token := some (.real, .real read.value)
    context
    errors := if read.overflowed then [.realTooBig (String.ofList literal)] else [] }

/-- The radix that the beginning of a number announces, if a digit of it follows. -/
def announcedRadix? (text : List Char) : Option Nat :=
  match text with
  | '0' :: x :: rest =>
    if (x == 'x' || x == 'X') && nextIs (isDigitOf 16) rest then some 16
    else if (x == 'b' || x == 'B') && nextIs (isDigitOf 2) rest then some 2
    else if (x == 'o' || x == 'O') && nextIs (isDigitOf 8) rest then some 8
    else none
  | _ => none

/-- The length of an exponent; zero if there is none. -/
def exponentLength (text : List Char) : Nat :=
  match text with
  | e :: rest =>
    if e == 'e' || e == 'E' then
      match rest with
      | [] => 0
      | sign :: digits =>
        if (sign == '+' || sign == '-') && nextIs Char.isDigit digits then
          digitsLength 10 digits + 2
        else if sign.isDigit then digitsLength 10 rest + 1
        else 0
    else 0
  | [] => 0

/-- The length of a fraction with its point; zero if there is none. -/
def fractionLength (text : List Char) : Nat :=
  match text with
  | '.' :: rest => digitsLength 10 rest + 1
  | _ => 0

theorem ne_nil_of_beginsAt {text : List Char} (h : beginsAt text) : text ≠ [] := by
  rintro rfl
  cases h

/-- A number that begins with a digit or a point has a whole part or a fraction. -/
theorem wholeAndFraction_pos {text : List Char} (h : beginsAt text) :
    0 < digitsLength 10 text + fractionLength (text.drop (digitsLength 10 text)) := by
  obtain ⟨c, rest, rfl⟩ := List.exists_cons_of_ne_nil (ne_nil_of_beginsAt h)
  simp only [beginsAt, Bool.or_eq_true, Bool.and_eq_true, beq_iff_eq] at h
  rcases h with digit | ⟨rfl, -⟩
  · have : 0 < digitsLength 10 (c :: rest) := digitsLength_pos (isDigitOf_ten digit)
    omega
  · have : digitsLength 10 ('.' :: rest) = 0 := by
      simp [digitsLength, show isDigitOf 10 '.' = false by decide]
    simp [this, fractionLength]

/-- Takes an integer in decimal, or in octal if it has a leading zero. -/
def emitPlain (context : Context) (literal : List Char) : Step :=
  if 1 < literal.length ∧ literal.head? = some '0' then
    let step := emitInteger context 8 literal literal
    if literal.any (fun c => c == '8' || c == '9') then
      { step with errors := .invalidNumber (String.ofList literal) :: step.errors }
    else step
  else emitInteger context 10 literal literal

/-- A step at a number. -/
def step (context : Context) (text : List Char) : Step :=
  match announcedRadix? text with
  | some radix =>
    let literal := text.take (digitsLength radix (text.drop 2) + 2)
    emitInteger context radix literal (literal.drop 2)
  | none =>
    let whole := digitsLength 10 text
    let fraction := fractionLength (text.drop whole)
    let exponent := exponentLength (text.drop (whole + fraction))
    let literal := text.take (whole + fraction + exponent)
    if fraction + exponent = 0 then emitPlain context literal else emitReal context literal

/-- A step at a number between brackets inside a string. Only a number that is written the way it
is printed counts as one; others, as any key, stay text. -/
def offsetStep (context : Context) (text : List Char) : Step :=
  let digits := text.takeWhile Char.isDigit
  let asText := Step.emitShared context .offsetNumber digits.length digits
  if 1 < digits.length ∧ digits.head? = some '0' then asText
  else
    match IntegerLiteral.read 10 digits with
    | .exact value =>
      { length := digits.length
        token := some (integerToken .offsetNumber .offsetNumber value)
        context }
    | .overflow _ => asText

/-! ## What is made of a number -/

/-- What a step makes of the literal of a number: an integer that a word holds, or a real. Besides,
it may find that a digit of an octal literal is not an octal one. -/
inductive Makes (context : Context) (literal : List Char) : Step → Prop where
  | word {radix : Nat} {digits : List Char} {value : Int64} {errors : List LexError}
    (mem : radix ∈ [2, 8, 10, 16]) (read : IntegerLiteral.read radix digits = .exact value)
    (invalid : ∀ e ∈ errors, e = .invalidNumber (String.ofList literal)) :
    Makes context literal
      { length := literal.length
        token := some (integerToken .integer .wideInteger value)
        context
        errors }
  | tooBig {value : Float} {errors : List LexError}
    (invalid : ∀ e ∈ errors, e = .invalidNumber (String.ofList literal)) :
    Makes context literal
      { length := literal.length
        token := some (.real, .real value)
        context
        errors := errors ++ [.integerTooBig (String.ofList literal)] }
  | real : Makes context literal (emitReal context literal)

/-- An integer is made of its digits, after what was found in them. -/
theorem makes_emitInteger (context : Context) {radix : Nat} (mem : radix ∈ [2, 8, 10, 16])
    (literal digits : List Char) (errors : List LexError)
    (invalid : ∀ e ∈ errors, e = .invalidNumber (String.ofList literal)) :
    Makes context literal
      { emitInteger context radix literal digits with
        errors := errors ++ (emitInteger context radix literal digits).errors } := by
  rcases read : IntegerLiteral.read radix digits with value | value
  · simp only [emitInteger, read, List.append_nil]
    exact .word mem read invalid
  · simp only [emitInteger, read]
    exact .tooBig invalid

theorem makes_emitPlain (context : Context) (literal : List Char) :
    Makes context literal (emitPlain context literal) := by
  rw [emitPlain]
  split
  · dsimp only
    split
    · exact makes_emitInteger context (by decide) literal literal [.invalidNumber _] (by simp)
    · exact makes_emitInteger context (by decide) literal literal [] (by simp)
  · exact makes_emitInteger context (by decide) literal literal [] (by simp)

/-- The radixes that are announced are not decimal. -/
theorem announcedRadix?_mem {text : List Char} {radix : Nat}
    (h : announcedRadix? text = some radix) : radix ∈ [2, 8, 10, 16] := by
  unfold announcedRadix? at h
  grind

/-- Every step at a number makes one of these, of some characters in front. -/
theorem exists_makes (context : Context) {text : List Char} (begins : beginsAt text) :
    ∃ literal, literal ≠ [] ∧ literal <+: text ∧ Makes context literal (step context text) := by
  have some := ne_nil_of_beginsAt begins
  rw [step]
  split
  · rename_i radix announced
    refine ⟨_, ?_, List.take_prefix _ text,
      makes_emitInteger context (announcedRadix?_mem announced) _ _ [] (by simp)⟩
    simp [some]
  · have pos := wholeAndFraction_pos begins
    dsimp only
    refine ⟨_, ?_, List.take_prefix (digitsLength 10 text +
      fractionLength (text.drop (digitsLength 10 text)) + exponentLength (text.drop
        (digitsLength 10 text + fractionLength (text.drop (digitsLength 10 text))))) text, ?_⟩
    · simp only [ne_eq, List.take_eq_nil_iff, some, or_false]
      omega
    · split
      · exact makes_emitPlain ..
      · exact .real

namespace Makes

variable {context : Context} {literal : List Char} {step : Step}

/-- A number takes its literal and nothing else. -/
theorem length_eq (h : Makes context literal step) : step.length = literal.length := by
  cases h with
  | word | tooBig | real => rfl

theorem context_eq (h : Makes context literal step) : step.context = context := by
  cases h with
  | word | tooBig | real => rfl

/-- Numbers are tokens of three kinds. -/
theorem exists_token (h : Makes context literal step) : ∃ kind value,
    step.token = some (kind, value) ∧ kind ∈ [.integer, .wideInteger, .real] := by
  cases h with
  | @word _ _ value =>
    obtain ⟨read, h | h⟩ := integerToken_eq .integer .wideInteger value
    · exact ⟨_, _, congrArg some h, by simp⟩
    · exact ⟨_, _, congrArg some h, by simp⟩
  | tooBig | real => exact ⟨_, _, rfl, by simp⟩

end Makes

/-- What a step makes of a number between brackets: its value if a word holds it and it is written
the way it is printed, and else its text. -/
inductive MakesKey (context : Context) (digits : List Char) : Step → Prop where
  | padded (zero : 1 < digits.length ∧ digits.head? = some '0') :
    MakesKey context digits (.emitShared context .offsetNumber digits.length digits)
  | tooBig {value : Float} (overflow : IntegerLiteral.read 10 digits = .overflow value) :
    MakesKey context digits (.emitShared context .offsetNumber digits.length digits)
  | word {value : Int64} (noZero : ¬(1 < digits.length ∧ digits.head? = some '0'))
    (read : IntegerLiteral.read 10 digits = .exact value) :
    MakesKey context digits
      { length := digits.length
        token := some (integerToken .offsetNumber .offsetNumber value)
        context }

/-- A number between brackets takes its digits and nothing else. -/
theorem MakesKey.length_eq {context : Context} {digits : List Char} {step : Step}
    (h : MakesKey context digits step) : step.length = digits.length := by
  cases h with
  | padded | tooBig | word => rfl

/-- Every step at a number between brackets makes one of these. -/
theorem makesKey (context : Context) (text : List Char) :
    MakesKey context (text.takeWhile Char.isDigit) (offsetStep context text) := by
  unfold offsetStep
  dsimp only
  split
  · rename_i zero
    exact .padded zero
  · rename_i noZero
    split
    · rename_i read
      exact .word noZero read
    · rename_i overflow
      exact .tooBig overflow

end PhpFrontEnd.Number
