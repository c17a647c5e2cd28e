import PhpFrontEnd.Span
import PhpFrontEnd.Text.Character
import PhpFrontEnd.Text.Utf8

/-!
# Names

Functions, classes, constants and namespaces are named without regard to the case of ASCII
letters, variables with regard to it. Both kinds of name keep their spelling; two names that are
spelled differently may still be the same (`Name.sameAs`).

A qualified name is a name in a namespace, which is a list of names itself; a leading backslash
makes it start at the global namespace. What names hash to is fixed here as a sequence of bytes
(`Name.hashBytes`), so that equal names, and only those, hash alike whatever the hash function is.
-/

namespace PhpFrontEnd

/-! ## Single names -/

/-- An identifier for which the case of ASCII letters makes no difference. -/
structure Name where
  /-- the name as it is spelled -/
  value : String
  deriving DecidableEq, Inhabited

namespace Name

def empty : Name := ⟨""⟩

def isEmpty (name : Name) : Bool := name.value.isEmpty

/-- Whether two names name the same thing. -/
def sameAs (a b : Name) : Bool := eqIgnoringCase a.value b.value

/-- The bytes that stand for a name in a hash: its lower-case text in UTF-8, and an end that UTF-8
has no use for. -/
def hashBytes (name : Name) : List UInt8 :=
  Utf8.encodeAll (name.value.toList.map Char.toLower) ++ [0xFF]

end Name

/-- The name of a variable, without its dollar sign. -/
structure VariableName where
  value : String
  deriving DecidableEq, Inhabited

namespace VariableName

/-- Whether the variable is the object that a method runs on. -/
def isThis (name : VariableName) : Bool := name.value == "this"

/-- The names of variables that exist in every scope. -/
def autoGlobals : List String :=
  ["GLOBALS", "_SERVER", "_GET", "_POST", "_FILES", "_COOKIE", "_SESSION", "_REQUEST", "_ENV"]

def isAutoGlobal (name : VariableName) : Bool := autoGlobals.contains name.value

/-- Written with its dollar sign. -/
protected def toString (name : VariableName) : String := "$" ++ name.value

instance : ToString VariableName := ⟨VariableName.toString⟩

end VariableName

/-! ## Qualified names -/

/-- What stands between the names of a qualified name. -/
def namespaceSeparator : Char := '\\'

/-- A name in a namespace. -/
structure QualifiedName where
  name : Name := .empty
  /-- the namespaces, outermost first -/
  namespaces : List Name := []
  /-- whether it is written with a leading separator -/
  fullyQualified : Bool := false
  deriving DecidableEq, Inhabited

namespace QualifiedName

/-- A text cut at its separators; there is always a first piece. -/
def pieces : List Char → List (List Char)
  | [] => [[]]
  | c :: rest =>
    if c = namespaceSeparator then [] :: pieces rest
    else
      match pieces rest with
      | [] => [[c]]
      | piece :: more => (c :: piece) :: more

/-- The names in a written qualified name. Nothing between two separators is no name. -/
def segments (text : List Char) : List Name :=
  ((pieces text).filter (!·.isEmpty)).map fun piece => ⟨String.ofList piece⟩

/-- Reads a written name: the last segment is the name, the others are its namespaces. -/
def parse (text : String) : QualifiedName :=
  let segments := segments text.toList
  { name := segments.getLast?.getD .empty
    namespaces := segments.dropLast
    fullyQualified := text.toList.head? == some namespaceSeparator }

/-- Reads the written name of a namespace: what is read as the name, if there is one, is the
innermost namespace. -/
def parseNamespace (text : String) : QualifiedName :=
  let qualified := parse text
  if qualified.name.isEmpty then qualified
  else
    { qualified with
      name := .empty
      namespaces := qualified.namespaces ++ [qualified.name] }

def isEmpty (name : QualifiedName) : Bool := name.name.isEmpty && name.namespaces.isEmpty

/-- Whether the name has no namespace. -/
def isSimple (name : QualifiedName) : Bool := name.namespaces.isEmpty

/-- The namespaces as they are written, without a leading separator. -/
def namespaceText (name : QualifiedName) : String :=
  String.ofList (List.intercalate [namespaceSeparator] (name.namespaces.map (·.value.toList)))

/-- The name as it is written. -/
protected def toString (name : QualifiedName) : String :=
  String.ofList
    ((if name.fullyQualified then [namespaceSeparator] else []) ++
      name.namespaces.flatMap (fun part => part.value.toList ++ [namespaceSeparator]) ++
      name.name.value.toList)

instance : ToString QualifiedName := ⟨QualifiedName.toString⟩

/-- Whether two qualified names name the same thing in the same way. -/
def sameAs (a b : QualifiedName) : Bool :=
  a.name.sameAs b.name && a.namespaces.length == b.namespaces.length &&
    (a.namespaces.zip b.namespaces).all (fun (a, b) => a.sameAs b) &&
    a.fullyQualified == b.fullyQualified

/-- A number as the eight bytes of a word, lowest first. -/
def wordBytes (n : Nat) : List UInt8 := (List.range 8).map fun i => .ofNat (n >>> (8 * i))

/-- The bytes that stand for a qualified name in a hash: the name, the number of namespaces and
each of them, and whether it is fully qualified. -/
def hashBytes (name : QualifiedName) : List UInt8 :=
  name.name.hashBytes ++ wordBytes name.namespaces.length ++
    name.namespaces.flatMap Name.hashBytes ++ [if name.fullyQualified then 1 else 0]

end QualifiedName

/-! ## Names in a source -/

/-- A name and where it is written. -/
structure Located (α : Type) where
  span : Span
  name : α
  deriving DecidableEq

namespace Located

/-- Whether two names are written at the same place and name the same thing. -/
def sameAs (a b : Located Name) : Bool := a.span == b.span && a.name.sameAs b.name

end Located

end PhpFrontEnd
