/-!
# JSON values

Objects keep their fields in the order they were added. A field that is added again keeps its
place and takes the new value.
-/

namespace PhpFrontEnd

/-- A JSON value. -/
inductive Json where
  | null
  | bool (value : Bool)
  | int (value : Int)
  | float (value : Float)
  | string (value : String)
  | array (items : List Json)
  | object (fields : List (String × Json))
  deriving Inhabited

namespace Json

/-- Adds a field to the fields of an object. -/
def insertField (name : String) (value : Json) : List (String × Json) → List (String × Json)
  | [] => [(name, value)]
  | (n, v) :: rest =>
    if n = name then (n, value) :: rest else (n, v) :: insertField name value rest

/-- The object of some fields, added one after the other. -/
def ofFields (fields : List (String × Json)) : Json :=
  .object (fields.foldl (fun object (name, value) => insertField name value object) [])

end Json

end PhpFrontEnd
