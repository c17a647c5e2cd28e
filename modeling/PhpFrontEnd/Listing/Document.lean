import PhpFrontEnd.Json.Basic
import PhpFrontEnd.Token.Basic

/-!
# Tokens as documents

The JSON form of a token: its kind, its span, and its value together with the type of the value.
Bytes become an array of numbers.
-/

namespace PhpFrontEnd

/-- A decoded text as JSON. -/
def Text.toJson : Text → Json
  | .str s => .string s
  | .bytes b => .array (b.map fun byte => .int byte.toNat)

/-- The word for a quote. -/
def Quote.name : Quote → String
  | .single => "Single"
  | .double => "Double"

/-- The value of a token as JSON. -/
def TokenValue.toJson (value : TokenValue) : Json :=
  let typed := fun (name : String) (json : Json) =>
    Json.object [("type", .string name), ("value", json)]
  match value with
  | .none => .object [("type", .string "None")]
  | .integer n => typed "Integer" (.int n.toInt)
  | .wideInteger n => typed "WideInteger" (.int n.toInt)
  | .real x => typed "Float" (.float x)
  | .text t => typed "Text" t.toJson
  | .literal t quote =>
    typed "Literal" (.object [("text", t.toJson), ("quote", .string quote.name)])
  | .run t raw => typed "Encapsed" (.object [("text", t.toJson), ("raw", .string raw)])

/-- A token as JSON. -/
def Token.toJson (token : Token) : Json :=
  .object
    [("kind", .string token.kind.name),
     ("span", .object [("start", .int token.span.start), ("length", .int token.span.length)]),
     ("value", token.value.toJson)]

end PhpFrontEnd
