import PhpFrontEnd.Decimal.Number

/-!
# Literals with a point or an exponent

Such a literal denotes the float nearest to it, underscores left out. A literal too large for any
finite float denotes an infinity of its sign and is marked; a text that is no number denotes zero.
-/

namespace PhpFrontEnd

/-- What a literal with a point or an exponent denotes. -/
structure RealLiteral where
  value : Float
  /-- whether the literal is too large for a finite float -/
  overflowed : Bool

/-- Reads a literal. -/
def RealLiteral.read (text : List Char) : RealLiteral :=
  match Decimal.read? (text.filter (· ≠ '_')) with
  | some number => ⟨number.toFloat, number.toFloat.isInf⟩
  | none => ⟨0.0, false⟩

end PhpFrontEnd
