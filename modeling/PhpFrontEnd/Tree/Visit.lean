import PhpFrontEnd.Tree.Basic

/-!
# Visiting trees

A visitor says what to do at a node. It is given the node and a walk over what is below it, and
decides whether and when to walk: before its own work, after it, or not at all, so that what is
below is passed over. A field that is not given just walks.

Statements and expressions are announced twice. First comes the handler for all statements or all
expressions, and its walk leads to the handler for the node itself.
-/

namespace PhpFrontEnd

/-- What to do at the nodes of a tree. -/
structure Visitor (m : Type → Type) where
  /-- at every statement -/
  statement : Statement → m Unit → m Unit := fun _ walk => walk
  /-- at every expression -/
  expression : Expression → m Unit → m Unit := fun _ walk => walk
  /-- at every node; its walk goes to the children -/
  node : Node → m Unit → m Unit := fun _ walk => walk

namespace Visitor

variable {m : Type → Type} [Monad m] (visitor : Visitor m)

mutual

/-- Visits an expression. -/
def visitExpression (e : Expression) : m Unit :=
  visitor.expression e <| visitor.node (.expression e) <|
    match e with
    | .concat _ parts => visitExpressions parts
    | .unary _ _ operand => visitExpression operand
    | .binary _ _ left right => do
      visitExpression left
      visitExpression right
    | .assign _ _ target value => do
      visitExpression target
      visitExpression value
    | .assignRef _ target value => do
      visitExpression target
      visitExpression value
    | .count _ _ _ operand => visitExpression operand
    | .call _ _ arguments => visitExpressions arguments
    | _ => pure ()

/-- Visits expressions one after the other. -/
def visitExpressions : List Expression → m Unit
  | [] => pure ()
  | e :: rest => do
    visitExpression e
    visitExpressions rest

end

/-- Visits a constant in a declaration. -/
def visitConstant (c : ConstantDecl) : m Unit :=
  visitor.node (.constant c) (visitor.visitExpression c.initializer)

/-- Visits constants one after the other. -/
def visitConstants : List ConstantDecl → m Unit
  | [] => pure ()
  | c :: rest => do
    visitor.visitConstant c
    visitConstants rest

mutual

/-- Visits a statement. -/
def visitStatement (s : Statement) : m Unit :=
  visitor.statement s <| visitor.node (.statement s) <|
    match s with
    | .namespaceDecl _ _ _ body => visitStatements body
    | .constants _ decls => visitor.visitConstants decls
    | .echo _ parameters => visitor.visitExpressions parameters
    | .expression _ value => visitor.visitExpression value
    | .block _ body => visitStatements body

/-- Visits statements one after the other. -/
def visitStatements : List Statement → m Unit
  | [] => pure ()
  | s :: rest => do
    visitStatement s
    visitStatements rest

end

/-- Visits a program. -/
def visit (program : Program) : m Unit :=
  visitor.node (.program program) (visitor.visitStatements program.statements)

end Visitor

end PhpFrontEnd
