import PhpFrontEnd.Text.Character

/-!
# Decimal numbers

A number written in decimal is a whole number times a power of ten, an infinity, or not a number.
The notation read here has an optional sign, digits with an optional point, and an optional
exponent; the words `inf`, `infinity` and `nan` may stand for the digits, in any case.
-/

namespace PhpFrontEnd.Decimal

/-- A number as it is written, without its sign. -/
inductive Magnitude where
  /-- a whole number times a power of ten -/
  | finite (digits : Nat) (exponent : Int)
  | infinity
  | nan

/-- A number as it is written. -/
structure Number where
  negative : Bool
  magnitude : Magnitude

/-- The whole number that decimal digits denote. -/
def ofDigits (digits : List Char) : Nat :=
  digits.foldl (fun n c => n * 10 + (c.toNat - '0'.toNat)) 0

/-- An exponent with its optional sign, after the letter that announces it. -/
def readExponent? (text : List Char) : Option Int :=
  let (negative, digits) :=
    match text with
    | '-' :: rest => (true, rest)
    | '+' :: rest => (false, rest)
    | rest => (false, rest)
  if !digits.isEmpty && digits.all Char.isDigit then
    some (if negative then -(ofDigits digits : Int) else ofDigits digits)
  else none

/-- Digits, an optional point with more digits, an optional exponent. -/
def readFinite? (text : List Char) : Option Magnitude :=
  let whole := text.takeWhile Char.isDigit
  let rest := text.dropWhile Char.isDigit
  let (fraction, rest) :=
    match rest with
    | '.' :: rest => (rest.takeWhile Char.isDigit, rest.dropWhile Char.isDigit)
    | rest => ([], rest)
  let digits := whole ++ fraction
  if digits.isEmpty then none
  else
    let shift : Int := fraction.length
    match rest with
    | [] => some (.finite (ofDigits digits) (-shift))
    | e :: rest =>
      if e = 'e' ∨ e = 'E' then
        (readExponent? rest).map fun exponent => .finite (ofDigits digits) (exponent - shift)
      else none

/-- A number without its sign. -/
def readMagnitude? (text : List Char) : Option Magnitude :=
  match readFinite? text with
  | some magnitude => some magnitude
  | none =>
    let word := String.ofList (text.map Char.toLower)
    if word = "inf" ∨ word = "infinity" then some .infinity
    else if word = "nan" then some .nan
    else none

/-- Reads a number, if the whole text is one. -/
def read? (text : List Char) : Option Number :=
  match text with
  | '-' :: rest => (readMagnitude? rest).map (⟨true, ·⟩)
  | '+' :: rest => (readMagnitude? rest).map (⟨false, ·⟩)
  | rest => (readMagnitude? rest).map (⟨false, ·⟩)

/-! ## The nearest float -/

/-- The number of decimal digits of a whole number; one for zero. -/
def digitCount (n : Nat) : Nat := (Nat.toDigits 10 n).length

def infinity : Float := 1.0 / 0.0

/-- The float nearest to `digits * 10 ^ exponent`. Floats end before 1e309 and begin after
1e-325, so exponents far outside need no arithmetic. -/
def toFloat (digits : Nat) (exponent : Int) : Float :=
  if digits = 0 then 0.0
  else
    let size := digitCount digits + exponent
    if 310 < size then infinity
    else if size < -330 then 0.0
    else Float.ofScientific digits (decide (exponent < 0)) exponent.natAbs

/-- The float nearest to a number. -/
def Number.toFloat (n : Number) : Float :=
  let x :=
    match n.magnitude with
    | .finite digits exponent => Decimal.toFloat digits exponent
    | .infinity => infinity
    | .nan => 0.0 / 0.0
  if n.negative then -x else x

end PhpFrontEnd.Decimal
