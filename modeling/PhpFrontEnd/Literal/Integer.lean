import PhpFrontEnd.Text.Character

/-!
# Integer literals

The digits of an integer literal, after its radix is known, denote a number. It is held in a
64-bit word if it fits, and as a float otherwise. Underscores between digits and leading zeros do
not count, and reading stops at the first character that is not a digit.

Most literals are so short that their number of digits alone shows that no step of the summation
can leave the word (`fitsByCount`); only the longer ones are summed with a check on every step
(`accumulate`).
-/

namespace PhpFrontEnd

/-- What the digits of an integer literal denote. -/
inductive IntegerLiteral where
  /-- a number that fits in a signed word -/
  | exact (value : Int64)
  /-- a number beyond that, as the float that summing its digits arrives at -/
  | overflow (value : Float)

namespace IntegerLiteral

/-- The values of the digits up to the first character that is none. -/
def digitValues (radix : Nat) : List Char → List Nat
  | [] => []
  | c :: rest =>
    match digitValue? radix c with
    | some d => d :: digitValues radix rest
    | none => []

/-- The digits that matter: underscores and leading zeros are left out. -/
def significantDigits (radix : Nat) (digits : List Char) : List Nat :=
  digitValues radix ((digits.filter (· ≠ '_')).dropWhile (· = '0'))

/-- Whether every number of so many digits fits in a signed word. -/
def fitsByCount (radix count : Nat) : Bool :=
  match radix with
  | 2 => count < 64
  | 8 => count < 22
  | 10 => count < 19
  | 16 => count < 16
  | _ => false

/-- Sums digits in a word, with nothing to stop it from wrapping around. -/
def sum (radix : Nat) (digits : List Nat) : Int64 :=
  digits.foldl (fun value d => value * .ofNat radix + .ofNat d) 0

/-- Sums hexadecimal digits by shifting them in. -/
def shiftIn (digits : List Nat) : Int64 :=
  digits.foldl (fun value d => value <<< 4 ||| .ofNat d) 0

/-- Goes on summing digits as floats. Every step rounds. -/
def sumFloat (radix : Nat) (value : Float) (digits : List Nat) : Float :=
  digits.foldl (fun value d => value * .ofNat radix + .ofNat d) value

/-- Sums digits in a word for as long as the sum fits, and as floats from there on. -/
def accumulate (radix : Nat) (value : Int64) : List Nat → IntegerLiteral
  | [] => .exact value
  | d :: rest =>
    if value.toInt * radix + d ≤ Int64.maxValue.toInt then
      accumulate radix (value * .ofNat radix + .ofNat d) rest
    else .overflow (sumFloat radix value.toFloat (d :: rest))

/-- Reads the digits of a literal. Sixteen hexadecimal digits fit if the first is below eight. -/
def read (radix : Nat) (text : List Char) : IntegerLiteral :=
  let digits := significantDigits radix text
  if radix = 16 then
    if fitsByCount 16 digits.length ∨ (digits.length = 16 ∧ digits.headD 8 < 8) then
      .exact (shiftIn digits)
    else .overflow (sumFloat 16 0 digits)
  else if fitsByCount radix digits.length then .exact (sum radix digits)
  else accumulate radix 0 digits

end IntegerLiteral

end PhpFrontEnd
