import PhpFrontEnd.Span

/-!
# Events of a written tree

A tree is written as a sequence of events: a node starts, with its kind, its place and its
properties, then come the events of its children, and then it stops. A property is a text or a
list of further properties.
-/

namespace PhpFrontEnd

/-- The value of a property. -/
inductive PropertyValue where
  | text (text : String)
  | nested (properties : List (String × PropertyValue))

/-- A named value of a node. -/
abbrev Property := String × PropertyValue

namespace Property

def text (name value : String) : Property := (name, .text value)

/-- Truth values are written as words. -/
def flag (name : String) (value : Bool) : Property := text name (if value then "True" else "False")

def nested (name : String) (properties : List Property) : Property := (name, .nested properties)

end Property

/-- A step in writing a tree. -/
inductive NodeEvent where
  | start (kind : String) (span : Span) (properties : List Property)
  | stop

namespace NodeEvent

/-- Whether events stop every node that they start, and no other, when `depth` nodes are open. -/
def balancedAt (depth : Nat) : List NodeEvent → Bool
  | [] => depth == 0
  | .start .. :: rest => balancedAt (depth + 1) rest
  | .stop :: rest =>
    match depth with
    | 0 => false
    | depth + 1 => balancedAt depth rest

/-- Whether events stop every node that they start, and no other. -/
def balanced (events : List NodeEvent) : Bool := balancedAt 0 events

end NodeEvent

end PhpFrontEnd
