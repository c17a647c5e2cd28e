import PhpFrontEnd.Name
import PhpFrontEnd.Operator
import PhpFrontEnd.Properties

/-!
# Syntax trees

A program is a list of statements, statements hold statements and expressions, and expressions
hold expressions. Every node has a place in the source and a bag of annotations.

Programs, statements, the constants of a declaration and expressions are four types, since each
may stand only in its own positions. Where all nodes are treated alike they are one type, `Node`,
with the children of a node in the order of the source.
-/

namespace PhpFrontEnd

/-- What every node has. -/
structure NodeInfo where
  span : Span
  properties : PropertyBag := {}

/-- Leaves an annotation at a node. -/
def NodeInfo.annotate (info : NodeInfo) (value : Annotation) : NodeInfo :=
  { info with properties := info.properties.insertType value }

/-! ## The four types of nodes -/

/-- An expression. -/
inductive Expression where
  | integer (info : NodeInfo) (value : Int64)
  | double (info : NodeInfo) (value : Float)
  | string (info : NodeInfo) (value : String)
  /-- a string whose bytes are not text in the source encoding -/
  | binaryString (info : NodeInfo) (value : List UInt8)
  | bool (info : NodeInfo) (value : Bool)
  | null (info : NodeInfo)
  | variable (info : NodeInfo) (name : Located VariableName)
  /-- an interpolated string, or a chain of concatenations -/
  | concat (info : NodeInfo) (parts : List Expression)
  | unary (info : NodeInfo) (operator : Operator) (operand : Expression)
  | binary (info : NodeInfo) (operator : Operator) (left right : Expression)
  | assign (info : NodeInfo) (operator : Operator) (target value : Expression)
  | assignRef (info : NodeInfo) (target value : Expression)
  /-- counting a variable up or down, before or after its value is taken -/
  | count (info : NodeInfo) (up after : Bool) (operand : Expression)
  /-- a call of a function by its written name -/
  | call (info : NodeInfo) (function : Located QualifiedName) (arguments : List Expression)

/-- A constant in a declaration. -/
structure ConstantDecl where
  info : NodeInfo
  name : Located Name
  /-- whether the declaration stands in a conditional block -/
  conditional : Bool
  initializer : Expression

/-- A statement. -/
inductive Statement where
  /-- a namespace, declared for the rest of the file (`simple`) or for a block -/
  | namespaceDecl (info : NodeInfo) (name : Located QualifiedName) (simple : Bool)
      (body : List Statement)
  | constants (info : NodeInfo) (constants : List ConstantDecl)
  | echo (info : NodeInfo) (parameters : List Expression)
  | expression (info : NodeInfo) (expression : Expression)
  | block (info : NodeInfo) (body : List Statement)

/-- A whole source file. -/
structure Program where
  info : NodeInfo
  statements : List Statement

namespace Expression

def info : Expression → NodeInfo
  | .integer info _ | .double info _ | .string info _ | .binaryString info _ | .bool info _
  | .null info | .variable info _ | .concat info _ | .unary info _ _ | .binary info _ _ _
  | .assign info _ _ _ | .assignRef info _ _ | .count info _ _ _ | .call info _ _ => info

/-- The same expression with other information. -/
def withInfo (info : NodeInfo) : Expression → Expression
  | .integer _ value => .integer info value
  | .double _ value => .double info value
  | .string _ value => .string info value
  | .binaryString _ value => .binaryString info value
  | .bool _ value => .bool info value
  | .null _ => .null info
  | .variable _ name => .variable info name
  | .concat _ parts => .concat info parts
  | .unary _ operator operand => .unary info operator operand
  | .binary _ operator left right => .binary info operator left right
  | .assign _ operator target value => .assign info operator target value
  | .assignRef _ target value => .assignRef info target value
  | .count _ up after operand => .count info up after operand
  | .call _ function arguments => .call info function arguments

/-- Leaves an annotation at an expression. -/
def annotate (e : Expression) (value : Annotation) : Expression :=
  e.withInfo (e.info.annotate value)

/-- The expressions that stand in an expression, in the order of the source. -/
def children : Expression → List Expression
  | .concat _ parts => parts
  | .unary _ _ operand => [operand]
  | .binary _ _ left right => [left, right]
  | .assign _ _ target value => [target, value]
  | .assignRef _ target value => [target, value]
  | .count _ _ _ operand => [operand]
  | .call _ _ arguments => arguments
  | _ => []

end Expression

namespace Statement

def info : Statement → NodeInfo
  | .namespaceDecl info _ _ _ | .constants info _ | .echo info _ | .expression info _
  | .block info _ => info

/-- The same statement with other information. -/
def withInfo (info : NodeInfo) : Statement → Statement
  | .namespaceDecl _ name simple body => .namespaceDecl info name simple body
  | .constants _ decls => .constants info decls
  | .echo _ parameters => .echo info parameters
  | .expression _ value => .expression info value
  | .block _ body => .block info body

/-- Leaves an annotation at a statement. -/
def annotate (s : Statement) (value : Annotation) : Statement := s.withInfo (s.info.annotate value)

end Statement

/-! ## Kinds -/

/-- What a node is. -/
inductive NodeKind where
  | program | namespaceDecl | constants | constant | echo | expression | block
  | integer | double | string | binaryString | bool | null | variable | concat | unary | binary
  | assign | assignRef | count | call
  deriving DecidableEq

/-- The name of a kind in documents. -/
def NodeKind.name : NodeKind → String
  | .program => "GlobalCode"
  | .namespaceDecl => "NamespaceDecl"
  | .constants => "GlobalConstDeclList"
  | .constant => "GlobalConstantDecl"
  | .echo => "EchoStmt"
  | .expression => "ExpressionStmt"
  | .block => "BlockStmt"
  | .integer => "LongIntLiteral"
  | .double => "DoubleLiteral"
  | .string => "StringLiteral"
  | .binaryString => "BinaryStringLiteral"
  | .bool => "BoolLiteral"
  | .null => "NullLiteral"
  | .variable => "DirectVarUse"
  | .concat => "ConcatEx"
  | .unary => "UnaryEx"
  | .binary => "BinaryEx"
  | .assign => "ValueAssignEx"
  | .assignRef => "RefAssignEx"
  | .count => "IncDecEx"
  | .call => "DirectFcnCall"

def Expression.kind : Expression → NodeKind
  | .integer .. => .integer
  | .double .. => .double
  | .string .. => .string
  | .binaryString .. => .binaryString
  | .bool .. => .bool
  | .null .. => .null
  | .variable .. => .variable
  | .concat .. => .concat
  | .unary .. => .unary
  | .binary .. => .binary
  | .assign .. => .assign
  | .assignRef .. => .assignRef
  | .count .. => .count
  | .call .. => .call

def Statement.kind : Statement → NodeKind
  | .namespaceDecl .. => .namespaceDecl
  | .constants .. => .constants
  | .echo .. => .echo
  | .expression .. => .expression
  | .block .. => .block

/-! ## All nodes alike -/

/-- A node of a tree. -/
inductive Node where
  | program (program : Program)
  | statement (statement : Statement)
  | constant (constant : ConstantDecl)
  | expression (expression : Expression)

namespace Node

def info : Node → NodeInfo
  | .program p => p.info
  | .statement s => s.info
  | .constant c => c.info
  | .expression e => e.info

def span (node : Node) : Span := node.info.span

def properties (node : Node) : PropertyBag := node.info.properties

def kind : Node → NodeKind
  | .program _ => .program
  | .statement s => s.kind
  | .constant _ => .constant
  | .expression e => e.kind

/-- The nodes right below a node, in the order of the source. -/
def children : Node → List Node
  | .program p => p.statements.map statement
  | .statement (.namespaceDecl _ _ _ body) => body.map statement
  | .statement (.constants _ decls) => decls.map constant
  | .statement (.echo _ parameters) => parameters.map expression
  | .statement (.expression _ value) => [expression value]
  | .statement (.block _ body) => body.map statement
  | .constant c => [expression c.initializer]
  | .expression e => e.children.map expression

end Node

end PhpFrontEnd
