import PhpFrontEnd.Diagnostic

/-!
# Reports of problems

A problem is reported on a line of its own: the file, the line and the column it was found at, how
bad it is, and what it is. Lines and columns are counted from one, in characters.
-/

namespace PhpFrontEnd

/-- A line and a column, both counted from one. -/
structure Position where
  line : Nat
  column : Nat
  deriving DecidableEq

/-- The position after a character. -/
def Position.after (position : Position) (c : Char) : Position :=
  if c = '\n' then ⟨position.line + 1, 1⟩ else ⟨position.line, position.column + 1⟩

/-- The position of an offset in a source. -/
def Position.ofOffset (source : List Char) (offset : Nat) : Position :=
  (source.take offset).foldl Position.after ⟨1, 1⟩

/-- The line that reports a problem. -/
def Diagnostic.report (path : String) (source : List Char) (diagnostic : Diagnostic) : String :=
  let { line, column } := Position.ofOffset source diagnostic.span.start
  let error := diagnostic.error
  s!"{path}:{line}:{column}: {error.severity.label}: {error.message}"

end PhpFrontEnd
