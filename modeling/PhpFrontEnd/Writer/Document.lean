import PhpFrontEnd.Json.Basic
import PhpFrontEnd.Writer.Event

/-!
# Documents from events

A document is built from the events of a tree. Every node becomes an object with its kind, the
bounds of its span, its properties and its children.

Whoever sends the events may get them wrong: stop what was not started, start a second root, or
leave nodes open. The builder takes all events as they come, remembers the first thing that was
wrong, and says so when the document is asked for.
-/

namespace PhpFrontEnd

/-- What can be wrong with a sequence of events. -/
inductive DocumentError where
  /-- a node was stopped that had not been started -/
  | unexpectedStop
  /-- nodes were not stopped -/
  | unclosed (depth : Nat)
  /-- there was no node -/
  | empty
  /-- a node was started after the root had been stopped -/
  | secondRoot
  deriving DecidableEq

/-- The wording of an error. -/
def DocumentError.message : DocumentError → String
  | .unexpectedStop => "end_node without a matching start_node"
  | .unclosed depth => s!"{depth} node(s) still open"
  | .empty => "no node was written"
  | .secondRoot => "a second root node was started"

namespace PropertyValue

mutual

/-- The value of a property in a document. -/
def toJson : PropertyValue → Json
  | .text value => .string value
  | .nested properties => .ofFields (fields properties)

/-- Properties as fields. -/
def fields : List (String × PropertyValue) → List (String × Json)
  | [] => []
  | (name, value) :: rest => (name, value.toJson) :: fields rest

end

end PropertyValue

/-- A node that has been started and not yet stopped. -/
structure OpenNode where
  kind : String
  span : Span
  properties : List Property
  children : List Json := []

/-- The object of a node. -/
def OpenNode.toJson (node : OpenNode) : Json :=
  .object
    [("kind", .string node.kind),
     ("span", .object [("start", .int node.span.start), ("end", .int node.span.stop)]),
     ("properties", (PropertyValue.nested node.properties).toJson),
     ("children", .array node.children)]

/-- A document that is being built. -/
structure DocumentBuilder where
  /-- the open nodes, innermost first -/
  stack : List OpenNode := []
  root : Option Json := none
  /-- the first thing that was wrong -/
  error : Option DocumentError := none

namespace DocumentBuilder

/-- The number of open nodes. -/
def depth (builder : DocumentBuilder) : Nat := builder.stack.length

/-- Remembers what was wrong, unless something was before. -/
def fail (builder : DocumentBuilder) (error : DocumentError) : DocumentBuilder :=
  { builder with error := builder.error.or (some error) }

/-- Starts a node. -/
def start (builder : DocumentBuilder) (kind : String) (span : Span) (properties : List Property) :
    DocumentBuilder :=
  let builder :=
    if builder.stack.isEmpty && builder.root.isSome then builder.fail .secondRoot else builder
  { builder with stack := { kind, span, properties } :: builder.stack }

/-- Stops the innermost open node. -/
def stop (builder : DocumentBuilder) : DocumentBuilder :=
  match builder.stack with
  | [] => builder.fail .unexpectedStop
  | [node] => { builder with stack := [], root := some node.toJson }
  | node :: parent :: rest =>
    let parent := { parent with children := parent.children ++ [node.toJson] }
    { builder with stack := parent :: rest }

/-- Takes an event. -/
def add (builder : DocumentBuilder) : NodeEvent → DocumentBuilder
  | .start kind span properties => builder.start kind span properties
  | .stop => builder.stop

/-- The finished document. -/
def finish (builder : DocumentBuilder) : Except DocumentError Json :=
  match builder.error with
  | some error => .error error
  | none =>
    if builder.stack.isEmpty then
      match builder.root with
      | some root => .ok root
      | none => .error .empty
    else .error (.unclosed builder.depth)

/-- The document of a sequence of events. -/
def ofEvents (events : List NodeEvent) : Except DocumentError Json :=
  (events.foldl add {}).finish

end DocumentBuilder

end PhpFrontEnd
