import PhpFrontEnd.Decimal.Shortest

/-!
# Layouts of numbers

How the digits of a float are set out is a matter of taste, and each output has its own: when to
use an exponent, how it is signed, whether a whole number shows a point. A layout puts these
decisions together, and one function follows them (`Layout.write`).
-/

namespace PhpFrontEnd.Decimal

/-- How a float is written. -/
structure Layout where
  /-- which of two equally near decimals is written -/
  tie : Tie
  /-- the least and the greatest power of the leading digit without an exponent; none if there
  never is one -/
  positional : Option (Int × Int)
  /-- what follows the digits of a whole number -/
  wholeEnd : String
  /-- the sign of a positive exponent -/
  exponentPlus : String
  infinity : String
  notANumber : String

namespace Layout

/-- Digits with the point where it belongs. -/
def positionalText (layout : Layout) (digits : List Char) (power : Int) : List Char :=
  if 0 ≤ power then digits ++ List.replicate power.toNat '0' ++ layout.wholeEnd.toList
  else
    let fraction := (-power).toNat
    if fraction < digits.length then
      digits.take (digits.length - fraction) ++ '.' :: digits.drop (digits.length - fraction)
    else '0' :: '.' :: List.replicate (fraction - digits.length) '0' ++ digits

/-- Digits with a point after the first, and an exponent. -/
def exponentText (layout : Layout) (digits : List Char) (leading : Int) : List Char :=
  let fraction := digits.drop 1
  let sign := if 0 ≤ leading then layout.exponentPlus else "-"
  digits.take 1 ++ (if fraction.isEmpty then [] else '.' :: fraction) ++
    'e' :: sign.toList ++ Nat.toDigits 10 leading.natAbs

/-- A decimal without its sign. -/
def pointText (layout : Layout) (point : Point) : List Char :=
  let digits := Nat.toDigits 10 point.digits
  let leading := point.power + (digits.length - 1 : Nat)
  match layout.positional with
  | none => layout.positionalText digits point.power
  | some (least, greatest) =>
    if least ≤ leading ∧ leading ≤ greatest then layout.positionalText digits point.power
    else layout.exponentText digits leading

/-- Writes a float. -/
def write (layout : Layout) (x : Float) : String :=
  let (negative, number) := classify x
  let sign := if negative then ['-'] else []
  match number with
  | .notANumber => layout.notANumber
  | .infinite => String.ofList (sign ++ layout.infinity.toList)
  | .finite 0 _ => String.ofList (sign ++ layout.positionalText ['0'] 0)
  | .finite mantissa exponent =>
    String.ofList (sign ++ layout.pointText (shortest layout.tie mantissa exponent))

end Layout

end PhpFrontEnd.Decimal
