import PhpFrontEnd.Text.Character

/-!
# Types named in casts

The type name between the parentheses of a cast, `(int)`. Most types go by several names; none of
the names regards case.
-/

namespace PhpFrontEnd

/-- The type that a cast converts to. -/
inductive CastType where
  | int | double | string | array | object | bool | unset
  deriving DecidableEq, Inhabited

namespace CastType

/-- Every name of a cast type, in lower case, and the type it names. -/
def spellings : List (String × CastType) :=
  [("int", .int), ("integer", .int), ("bool", .bool), ("boolean", .bool), ("float", .double),
   ("double", .double), ("real", .double), ("string", .string), ("binary", .string),
   ("array", .array), ("object", .object), ("unset", .unset)]

/-- The type of a name, if it is one that casts know. -/
def ofWord? (word : String) : Option CastType := spellings.lookup (lowerCase word)

/-- The name of a cast in listings. -/
def name : CastType → String
  | .int => "IntCast"
  | .double => "DoubleCast"
  | .string => "StringCast"
  | .array => "ArrayCast"
  | .object => "ObjectCast"
  | .bool => "BoolCast"
  | .unset => "UnsetCast"

end CastType

end PhpFrontEnd
