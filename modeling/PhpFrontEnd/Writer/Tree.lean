import PhpFrontEnd.Decimal.Layout
import PhpFrontEnd.Tree.Visit
import PhpFrontEnd.Writer.Document

/-!
# Writing trees

A tree is written by a visitor that starts each node, walks on to its children, and stops it. What
a node says about itself are its properties: the value of a literal, the name of what is named, the
operator. Programs and namespaces also say which names are in effect, as far as a pass has left
that in their annotations.

Where the events go is left open: a writer is anything with a state that takes them. The events
themselves are one such state, and a document is another.
-/

namespace PhpFrontEnd

/-! ## Properties of nodes -/

/-- Floats are written with the fewest digits that lead back to them, never with an exponent. -/
def valueLayout : Decimal.Layout where
  tie := .greater
  positional := none
  wholeEnd := ""
  exponentPlus := ""
  infinity := "inf"
  notANumber := "NaN"

/-- Imported names under a heading, if there are any. -/
def importsProperty (name : String) (imports : List (String × QualifiedName)) : List Property :=
  if imports.isEmpty then []
  else [.nested name (imports.map fun (written, target) => .text written target.toString)]

/-- The names in effect in a node. -/
def namingProperty (properties : PropertyBag) : Property :=
  .nested "NamingContext" <|
    match properties.naming? with
    | none => []
    | some naming =>
      (naming.currentNamespace.map fun name => .text "Namespace" name.namespaceText).toList ++
        importsProperty "Aliases" naming.aliases ++
        importsProperty "ConstantAliases" naming.constants ++
        importsProperty "FunctionAliases" naming.functions

def operatorProperty (operator : Operator) : Property := .text "Operation" operator.name

/-- What an expression says about itself. -/
def Expression.described : Expression → List Property
  | .integer _ value => [.text "Value" (toString value.toInt)]
  | .double _ value => [.text "Value" (valueLayout.write value)]
  | .string _ value => [.text "Value" value]
  | .binaryString _ value => [.text "Value" (String.ofList (Utf8.decodeLossy value))]
  | .bool _ value => [.flag "Value" value]
  | .null _ => [.text "Value" "null"]
  | .variable _ name => [.text "Name" name.name.value]
  | .concat _ _ => []
  | .unary _ operator _ => [operatorProperty operator]
  | .binary _ operator _ _ => [operatorProperty operator]
  | .assign _ operator _ _ => [operatorProperty operator]
  | .assignRef _ _ _ => [operatorProperty .assignRef]
  | .count _ up after _ => [.flag "Inc" up, .flag "Post" after]
  | .call _ function _ => [.text "Name" function.name.toString]

/-- What a node says about itself. -/
def Node.described : Node → List Property
  | .program p => [namingProperty p.info.properties]
  | .statement (.namespaceDecl info name simple _) =>
    (if name.name.isEmpty then [] else [.text "Name" name.name.namespaceText]) ++
      [.flag "SimpleSyntax" simple, namingProperty info.properties]
  | .statement _ => []
  | .constant c => [.flag "NameIsConditional" c.conditional, .text "Name" c.name.name.value]
  | .expression e => e.described

/-! ## Writers -/

/-- Something that takes events. -/
class NodeWriter (σ : Type) where
  add : σ → NodeEvent → σ

/-- Events are collected in the order they come. -/
instance : NodeWriter (Array NodeEvent) := ⟨Array.push⟩

instance : NodeWriter DocumentBuilder := ⟨DocumentBuilder.add⟩

/-- A visitor that writes every node. -/
def treeWriter (σ : Type) [NodeWriter σ] : Visitor (StateM σ) where
  node node walk := do
    modify (NodeWriter.add · (.start node.kind.name node.span node.described))
    walk
    modify (NodeWriter.add · .stop)

namespace Program

/-- The state of a writer after a program has been written to it. -/
def writeTo {σ : Type} [NodeWriter σ] (program : Program) (writer : σ) : σ :=
  ((treeWriter σ).visit program writer).2

/-- The events of a program. -/
def events (program : Program) : List NodeEvent := (program.writeTo (#[] : Array NodeEvent)).toList

/-- The document of a program. -/
def toJson (program : Program) : Except DocumentError Json :=
  (program.writeTo ({} : DocumentBuilder)).finish

end Program

end PhpFrontEnd
