/-!
# Character classes of source text

Labels (identifiers, variable names, heredoc labels) are made of ASCII letters, digits, the
underscore and every character above ASCII; they do not start with a digit. Blanks separate
tokens in code, and only spaces and tabs count as indentation. A line ends in a line feed, a
carriage return, or both in that order.
-/

namespace PhpFrontEnd

/-- Characters that separate tokens in code. -/
def isBlank (c : Char) : Bool := c == ' ' || c == '\t' || c == '\n' || c == '\r'

/-- Characters that indent a line. -/
def isIndent (c : Char) : Bool := c == ' ' || c == '\t'

/-- Characters a label may start with. -/
def isLabelStart (c : Char) : Bool := c.isAlpha || c == '_' || 0x80 ≤ c.toNat

/-- Characters a label may go on with. -/
def isLabelPart (c : Char) : Bool := isLabelStart c || c.isDigit

/-- Whether the next character, if there is one, has a property. -/
def nextIs (p : Char → Bool) : List Char → Bool
  | c :: _ => p c
  | [] => false

/-- The length of the line end at the front of a text. -/
def lineEndLength? (text : List Char) : Option Nat :=
  match text with
  | '\r' :: '\n' :: _ => some 2
  | '\r' :: _ => some 1
  | '\n' :: _ => some 1
  | _ => none

/-- The value of a digit in a radix up to 36; letters count from ten on, in either case. -/
def digitValue? (radix : Nat) (c : Char) : Option Nat :=
  let value? :=
    if c.isDigit then some (c.toNat - '0'.toNat)
    else if c.isLower then some (c.toNat - 'a'.toNat + 10)
    else if c.isUpper then some (c.toNat - 'A'.toNat + 10)
    else none
  value?.filter (· < radix)

/-- Whether a character is a digit of a radix. -/
def isDigitOf (radix : Nat) (c : Char) : Bool := (digitValue? radix c).isSome

/-- The digits that text is made of are those of decimal numbers. -/
theorem isDigitOf_ten {c : Char} (h : c.isDigit) : isDigitOf 10 c := by
  simp only [isDigitOf, digitValue?, h, if_true, Option.filter_some]
  simp only [Char.isDigit, Bool.and_eq_true, decide_eq_true_eq, UInt32.le_iff_toNat_le] at h
  have : c.toNat ≤ 57 := h.2
  have : '0'.toNat = 48 := rfl
  simp
  omega

/-- Whether a text starts with a word, ASCII letters compared without regard to case. -/
def startsWithIgnoringCase (word : List Char) (text : List Char) : Bool :=
  word.length ≤ text.length &&
    (word.zip text).all fun (w, c) => w.toLower == c.toLower

/-- A text with its ASCII letters in lower case. -/
def lowerCase (text : String) : String := String.ofList (text.toList.map Char.toLower)

/-- Equality of two texts without regard to the case of ASCII letters. -/
def eqIgnoringCase (a b : String) : Bool := lowerCase a == lowerCase b

end PhpFrontEnd
