import PhpFrontEnd.Decimal.Layout
import PhpFrontEnd.Json.Basic

/-!
# Printing JSON

A value is printed on one line without blanks (`Json.compact`), or with every item and field on a
line of its own, indented by two spaces a level (`Json.pretty`).

Strings escape what JSON demands and nothing else. Numbers with a fraction have the fewest digits
that lead back to them, and an infinity, which JSON cannot write, is printed as null.
-/

namespace PhpFrontEnd.Json

/-! ## Scalars -/

/-- Escapes of one letter. -/
def shortEscapes : List (Char × Char) :=
  [('"', '"'), ('\\', '\\'), ('\x08', 'b'), ('\x0c', 'f'), ('\n', 'n'), ('\r', 'r'), ('\t', 't')]

/-- A character inside a string. -/
def escapeChar (c : Char) : List Char :=
  match shortEscapes.lookup c with
  | some letter => ['\\', letter]
  | none =>
    if c.toNat < 0x20 then
      ['\\', 'u', '0', '0'] ++ Nat.toDigits 16 (c.toNat / 16) ++ Nat.toDigits 16 (c.toNat % 16)
    else [c]

/-- A string in quotes. -/
def quote (s : String) : List Char := '"' :: s.toList.flatMap escapeChar ++ ['"']

/-- Numbers are written without an exponent from 0.00001 up to below ten to the sixteenth; an
exponent has its sign, and a whole number its point. -/
def numberLayout : Decimal.Layout where
  tie := .even
  positional := some (-5, 15)
  wholeEnd := ".0"
  exponentPlus := "+"
  infinity := "null"
  notANumber := "null"

/-- A number with a fraction. -/
def floatText (x : Float) : List Char :=
  if x.isFinite then (numberLayout.write x).toList else "null".toList

/-- A value that has nothing inside. -/
def scalarText : Json → List Char
  | .null => "null".toList
  | .bool b => (toString b).toList
  | .int n => (toString n).toList
  | .float x => floatText x
  | .string s => quote s
  | .array _ => "[]".toList
  | .object _ => "\x7b\x7d".toList

/-! ## On one line -/

mutual

/-- A value on one line. -/
def compactText : Json → List Char
  | .array [] => "[]".toList
  | .array (item :: items) => '[' :: compactText item ++ compactItems items ++ [']']
  | .object [] => "\x7b\x7d".toList
  | .object ((name, value) :: fields) =>
    '\x7b' :: quote name ++ ':' :: compactText value ++ compactFields fields ++ ['\x7d']
  | scalar => scalarText scalar

/-- Items after the first. -/
def compactItems : List Json → List Char
  | [] => []
  | item :: items => ',' :: compactText item ++ compactItems items

/-- Fields after the first. -/
def compactFields : List (String × Json) → List Char
  | [] => []
  | (name, value) :: fields =>
    ',' :: quote name ++ ':' :: compactText value ++ compactFields fields

end

/-- Prints a value on one line. -/
def compact (json : Json) : String := String.ofList (compactText json)

/-! ## On many lines -/

/-- The start of a line at a depth. -/
def newLine (depth : Nat) : List Char := '\n' :: List.replicate (2 * depth) ' '

mutual

/-- A value whose insides stand one level deeper than `depth`. -/
def prettyText (depth : Nat) : Json → List Char
  | .array [] => "[]".toList
  | .array (item :: items) =>
    '[' :: newLine (depth + 1) ++ prettyText (depth + 1) item ++ prettyItems (depth + 1) items ++
      newLine depth ++ [']']
  | .object [] => "\x7b\x7d".toList
  | .object ((name, value) :: fields) =>
    '\x7b' :: newLine (depth + 1) ++ quote name ++ ':' :: ' ' :: prettyText (depth + 1) value ++
      prettyFields (depth + 1) fields ++ newLine depth ++ ['\x7d']
  | scalar => scalarText scalar

/-- Items after the first. -/
def prettyItems (depth : Nat) : List Json → List Char
  | [] => []
  | item :: items => ',' :: newLine depth ++ prettyText depth item ++ prettyItems depth items

/-- Fields after the first. -/
def prettyFields (depth : Nat) : List (String × Json) → List Char
  | [] => []
  | (name, value) :: fields =>
    ',' :: newLine depth ++ quote name ++ ':' :: ' ' :: prettyText depth value ++
      prettyFields depth fields

end

/-- Prints a value on many lines. -/
def pretty (json : Json) : String := String.ofList (prettyText 0 json)

end PhpFrontEnd.Json
