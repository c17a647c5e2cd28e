import PhpFrontEnd.Text.Character

/-!
# Closing labels

A heredoc ends at the first line that holds, after its indentation, the label of the heredoc and
then no character that would make the label longer.
-/

namespace PhpFrontEnd.Heredoc

/-- Where a closing label stands, counted from where the search began. -/
structure ClosingLabel where
  /-- the start of its line -/
  lineStart : Nat
  /-- the start of the label itself -/
  labelStart : Nat
  deriving DecidableEq

/-- The width of the indentation before a closing label, if the text is a line that starts with
one. -/
def closingIndent? (label : List Char) (line : List Char) : Option Nat :=
  let rest := line.dropWhile isIndent
  if label.isPrefixOf rest && !nextIs isLabelPart (rest.drop label.length) then
    some (line.takeWhile isIndent).length
  else none

/-- The closing label on the line that a text begins with. -/
def ClosingLabel.here? (label : List Char) (line : List Char) : Option ClosingLabel :=
  (closingIndent? label line).map fun indent => ⟨0, indent⟩

/-- A closing label as it is counted from some characters further back. -/
def ClosingLabel.shift (found : ClosingLabel) (n : Nat) : ClosingLabel :=
  ⟨found.lineStart + n, found.labelStart + n⟩

/-- The first closing label on a line that starts after a line feed. -/
def ClosingLabel.ahead? (label : List Char) : List Char → Option ClosingLabel
  | [] => none
  | c :: rest =>
    if c = '\n' then
      match ClosingLabel.here? label rest with
      | some found => some (found.shift 1)
      | none => (ClosingLabel.ahead? label rest).map (·.shift 1)
    else (ClosingLabel.ahead? label rest).map (·.shift 1)

/-- The first closing label of a text, whose own first line counts if it is whole. -/
def ClosingLabel.find? (label : List Char) (lineStart : Bool) (text : List Char) :
    Option ClosingLabel :=
  match (if lineStart then ClosingLabel.here? label text else none) with
  | some found => some found
  | none => ClosingLabel.ahead? label text

end PhpFrontEnd.Heredoc
