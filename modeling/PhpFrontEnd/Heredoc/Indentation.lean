import PhpFrontEnd.Text.Character

/-!
# The indentation of heredoc bodies

The closing label of a heredoc may be indented, and every line of the body then loses as much. The
body is at hand in fragments: the last one runs up to the closing label, so that its last line is
the label's indentation (`Heredoc.resolve`); an earlier one ends where an interpolation begins,
and the indentation has to be found further ahead (`Heredoc.isIndentedBy`). A fragment whose first
character does not start a line continues the line of the fragment before it, and that first part
is neither checked nor changed.

Lines that hold nothing but blanks are not checked, so that an empty line needs no indentation.
-/

namespace PhpFrontEnd.Heredoc

/-! ## Lines -/

/-- A text cut at its line feeds. -/
structure Lines where
  /-- the lines that a line feed ends, without it -/
  complete : List (List Char)
  /-- the text after the last line feed -/
  last : List Char

/-- Cuts a text at its line feeds. -/
def Lines.of : List Char → Lines
  | [] => ⟨[], []⟩
  | c :: rest =>
    let lines := Lines.of rest
    if c = '\n' then ⟨[] :: lines.complete, lines.last⟩
    else
      match lines.complete with
      | [] => ⟨[], c :: lines.last⟩
      | line :: more => ⟨(c :: line) :: more, lines.last⟩

/-- What follows each line feed of a text. -/
def lineTails : List Char → List (List Char)
  | [] => []
  | c :: rest => if c = '\n' then rest :: lineTails rest else lineTails rest

/-! ## The last fragment -/

/-- Some line is indented less than the closing label. -/
structure IndentationMismatch where
  /-- how much indentation all lines share; it is removed all the same -/
  shared : Nat

/-- Characters that are not blank within a line. -/
def isContent (c : Char) : Bool := !isIndent c && c != '\r'

/-- What a line begins with, if it has content at all. -/
def indentOf? (line : List Char) : Option (List Char) :=
  if line.any isContent then some (line.takeWhile (!isContent ·)) else none

/-- The indentation that earlier lines share with one more. Indentations of which neither goes on
with the other share nothing, even if they begin alike. -/
def share (shared : Option (List Char)) (indent : List Char) : Option (List Char) :=
  match shared with
  | none => some indent
  | some shared =>
    if shared.isPrefixOf indent then some shared
    else if indent.isPrefixOf shared then some indent
    else some []

/-- The width of the indentation to remove from a fragment that runs up to the closing label. -/
def resolve (text : List Char) (lineStart : Bool) : Except IndentationMismatch Nat :=
  let lines := Lines.of text
  let checked := if lineStart then lines.complete else lines.complete.drop 1
  match (checked.filterMap indentOf?).foldl share none with
  | none => .ok lines.last.length
  | some shared =>
    if lines.last.isPrefixOf shared then .ok lines.last.length else .error ⟨shared.length⟩

/-- The body of a fragment that runs up to the closing label: without the label's indentation, and
without the line end before it. -/
def finalBody (text : List Char) : List Char :=
  let body := List.intercalate ['\n'] (Lines.of text).complete
  if body.getLast? = some '\r' then body.dropLast else body

/-! ## Earlier fragments -/

/-- Whether every line with content that starts inside a fragment begins with an indentation. The
last line has content even if it holds blanks only, for an interpolation follows. -/
def isIndentedBy (text : List Char) (lineStart : Bool) (indent : List Char) : Bool :=
  ((if lineStart then [text] else []) ++ lineTails text).all fun line =>
    match line.dropWhile isIndent with
    | [] => indent.isPrefixOf line
    | c :: _ => c == '\n' || c == '\r' || indent.isPrefixOf line

/-! ## Removing indentation -/

/-- Removes up to `left` blanks, and up to `width` after every line feed. -/
def dedentFrom (width left : Nat) : List Char → List Char
  | [] => []
  | c :: rest =>
    if 0 < left ∧ isIndent c then dedentFrom width (left - 1) rest
    else c :: dedentFrom width (if c = '\n' then width else 0) rest

/-- Removes up to `width` blanks from the start of every line. -/
def dedent (text : List Char) (lineStart : Bool) (width : Nat) : List Char :=
  dedentFrom width (if lineStart then width else 0) text

end PhpFrontEnd.Heredoc
