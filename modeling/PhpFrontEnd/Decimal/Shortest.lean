/-!
# The shortest decimal of a float

A float stands for every real number that rounds to it, an interval around its own value. Written
in decimal it needs only as many digits as lead back into that interval: the coarsest decimal grid
that has a point there gives the fewest digits, and of two points the one nearer to the value is
taken. Two points may be equally near; which one is taken then is the choice of who writes.

All of this is arithmetic on natural numbers. A finite float is `mantissa * 2 ^ exponent`, and the
ends of its interval lie half a step, or below a power of two a quarter step, away from it.
-/

namespace PhpFrontEnd.Decimal

/-! ## Floats as numbers -/

/-- What a float is, apart from its sign. -/
inductive FloatClass where
  /-- `mantissa * 2 ^ exponent` -/
  | finite (mantissa : Nat) (exponent : Int)
  | infinite
  | notANumber

/-- The sign and the class that the bits of a float encode. -/
def classify (x : Float) : Bool × FloatClass :=
  let bits : Nat := x.toBits.toNat
  let negative := decide (1 <<< 63 ≤ bits)
  let exponent : Nat := (bits >>> 52) % (1 <<< 11)
  let fraction := bits % (1 <<< 52)
  if exponent = 2047 then (negative, if fraction = 0 then .infinite else .notANumber)
  else if exponent = 0 then (negative, .finite fraction (-1074))
  else (negative, .finite ((1 <<< 52) + fraction) ((exponent : Int) - 1075))

/-! ## The interval of a float -/

/-- The reals that round to a float, in quarters of the step between floats, scaled by a fraction
so that all ends are natural numbers: a number `n` stands for `n * num / den`. -/
structure Interval where
  low : Nat
  value : Nat
  high : Nat
  /-- whether the ends belong to the interval -/
  closed : Bool
  num : Nat
  den : Nat

/-- The interval of `mantissa * 2 ^ exponent`. The float below a power of two is only half a step
away, unless that power begins the range of the smallest floats. -/
def Interval.of (mantissa : Nat) (exponent : Int) : Interval :=
  let quarter := exponent - 2
  { low := 4 * mantissa - (if mantissa = 1 <<< 52 ∧ -1074 < exponent then 1 else 2)
    value := 4 * mantissa
    high := 4 * mantissa + 2
    closed := mantissa % 2 = 0
    num := 1 <<< quarter.toNat
    den := 1 <<< (-quarter).toNat }

/-! ## Points of a grid -/

/-- A point `digits * 10 ^ power` of a decimal grid. -/
structure Point where
  digits : Nat
  power : Int

/-- Which of two equally near points is taken. -/
inductive Tie where
  | greater
  | even
  deriving DecidableEq

/-- The point of the grid of a power of ten to write a float with, if one is in its interval. -/
def Interval.point? (interval : Interval) (tie : Tie) (power : Int) : Option Point :=
  let unit := Nat.pow 10 power.toNat * interval.den
  let scale := interval.num * Nat.pow 10 (-power).toNat
  let inside := fun digits : Nat =>
    let x := digits * unit
    if interval.closed then interval.low * scale ≤ x ∧ x ≤ interval.high * scale
    else interval.low * scale < x ∧ x < interval.high * scale
  let value := interval.value * scale
  let below := value / unit
  let above := below + 1
  let belowIsNearer :=
    let down := value - below * unit
    let up := above * unit - value
    down < up || (down == up && tie == .even && below % 2 == 0)
  match decide (inside below), decide (inside above) with
  | true, true => some ⟨if belowIsNearer then below else above, power⟩
  | true, false => some ⟨below, power⟩
  | false, true => some ⟨above, power⟩
  | false, false => none

/-- The first of the grids from a power of ten downwards that has a point in the interval. -/
def Interval.search (interval : Interval) (tie : Tie) : (power : Int) → (grids : Nat) → Point
  | power, 0 => ⟨interval.value, power⟩
  | power, grids + 1 =>
    match interval.point? tie power with
    | some point => point
    | none => interval.search tie (power - 1) grids

/-- The point with the fewest digits that leads back to a positive finite float. Seventeen digits
always do; the estimate of the leading power of ten is at most two too high. -/
def shortest (tie : Tie) (mantissa : Nat) (exponent : Int) : Point :=
  let leading := (exponent + mantissa.log2 + 1) * 30103 / 100000 + 1
  (Interval.of mantissa exponent).search tie leading 21

end PhpFrontEnd.Decimal
