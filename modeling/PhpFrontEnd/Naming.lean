import PhpFrontEnd.Name

/-!
# Naming contexts

What is in effect where a name is used: the current namespace and the names that have been
imported, which for classes, constants and functions are kept apart. Imports keep the order they
were declared in, and of two with one alias the first is meant.
-/

namespace PhpFrontEnd

/-- The names in effect in a part of a program. -/
structure Naming where
  currentNamespace : Option QualifiedName := none
  /-- imported classes and namespaces, by alias -/
  aliases : List (String × QualifiedName) := []
  constants : List (String × QualifiedName) := []
  functions : List (String × QualifiedName) := []
  deriving DecidableEq, Inhabited

/-- What a class alias stands for. -/
def Naming.resolve? (naming : Naming) (name : String) : Option QualifiedName :=
  (naming.aliases.find? fun (written, _) => eqIgnoringCase written name).map (·.2)

end PhpFrontEnd
