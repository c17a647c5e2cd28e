/-!
# Scopes

A pass that binds variables numbers the scopes it opens. A number is used once: going on to the
next scope counts up and never down, so a number stands for one nesting and not for a depth.
Counting stops at the number that means "do not track this scope".
-/

namespace PhpFrontEnd

/-- The number of a scope. -/
structure Scope where
  number : Int32
  deriving DecidableEq, Inhabited

namespace Scope

/-- The scope of a whole program. -/
def global : Scope := ⟨0⟩

/-- No scope. -/
def invalid : Scope := ⟨-1⟩

/-- The scope that is not tracked. -/
def untracked : Scope := ⟨2147483647⟩

/-- The scope that is opened next. -/
def next (scope : Scope) : Scope := if scope = untracked then scope else ⟨scope.number + 1⟩

def isGlobal (scope : Scope) : Bool := scope.number == 0

def isValid (scope : Scope) : Bool := 0 ≤ scope.number

instance : Ord Scope := ⟨fun a b => compare a.number.toInt b.number.toInt⟩

/-- Written as its number. -/
protected def toString (scope : Scope) : String := toString scope.number.toInt

instance : ToString Scope := ⟨Scope.toString⟩

end Scope

end PhpFrontEnd
