import PhpFrontEnd.Tree.Basic

/-!
# Literals of a token stream

Tokens of numbers and of complete strings are literals by themselves, and so are the names `true`,
`false` and `null`, which are plain identifiers to a lexer and are spelled in any case.
-/

namespace PhpFrontEnd.Expression

/-- The literal that a plain name is. -/
def ofWord? (info : NodeInfo) (word : String) : Option Expression :=
  if eqIgnoringCase word "true" then some (.bool info true)
  else if eqIgnoringCase word "false" then some (.bool info false)
  else if eqIgnoringCase word "null" then some (.null info)
  else none

/-- The literal that a token is. -/
def ofToken? (token : Token) : Option Expression :=
  let info : NodeInfo := { span := token.span }
  match token.kind, token.value with
  | .integer, value | .wideInteger, value => value.toInt64?.map (.integer info)
  | .real, value => value.toFloat?.map (.double info)
  | .quotedLiteral, .literal (.str s) _ => some (.string info s)
  | .quotedLiteral, .literal (.bytes b) _ => some (.binaryString info b)
  | .identifier, value =>
    match value.text? with
    | some (.str word) => ofWord? info word
    | _ => none
  | _, _ => none

end PhpFrontEnd.Expression
