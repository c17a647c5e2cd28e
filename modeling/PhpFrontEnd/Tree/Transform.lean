import PhpFrontEnd.Tree.Basic

/-!
# Transforming trees

A transformer has the shape of a visitor, but puts a node in the place of each it is given. Its
walk gives the node back with whatever has taken the place of its children; a handler that does
not walk keeps or replaces the node as it is.
-/

namespace PhpFrontEnd

/-- What to put in the place of the nodes of a tree. -/
structure Transformer (m : Type → Type) where
  /-- at the program -/
  program : Program → m Program → m Program := fun _ walk => walk
  /-- at every statement, before the handler for the node itself -/
  statement : Statement → m Statement → m Statement := fun _ walk => walk
  /-- at a statement itself; its walk goes to what is below -/
  statementNode : Statement → m Statement → m Statement := fun _ walk => walk
  /-- at a constant in a declaration -/
  constant : ConstantDecl → m ConstantDecl → m ConstantDecl := fun _ walk => walk
  /-- at every expression, before the handler for the node itself -/
  expression : Expression → m Expression → m Expression := fun _ walk => walk
  /-- at an expression itself; its walk goes to what is below -/
  expressionNode : Expression → m Expression → m Expression := fun _ walk => walk

namespace Transformer

variable {m : Type → Type} [Monad m] (transformer : Transformer m)

mutual

/-- Transforms an expression. -/
def transformExpression (e : Expression) : m Expression :=
  transformer.expression e <| transformer.expressionNode e <|
    match e with
    | .concat info parts => do
      return .concat info (← transformExpressions parts)
    | .unary info operator operand => do
      return .unary info operator (← transformExpression operand)
    | .binary info operator left right => do
      let left ← transformExpression left
      return .binary info operator left (← transformExpression right)
    | .assign info operator target value => do
      let target ← transformExpression target
      return .assign info operator target (← transformExpression value)
    | .assignRef info target value => do
      let target ← transformExpression target
      return .assignRef info target (← transformExpression value)
    | .count info up after operand => do
      return .count info up after (← transformExpression operand)
    | .call info function arguments => do
      return .call info function (← transformExpressions arguments)
    | e => pure e

/-- Transforms expressions one after the other. -/
def transformExpressions : List Expression → m (List Expression)
  | [] => pure []
  | e :: rest => do
    let e ← transformExpression e
    return e :: (← transformExpressions rest)

end

/-- Transforms a constant in a declaration. -/
def transformConstant (c : ConstantDecl) : m ConstantDecl :=
  transformer.constant c do
    return { c with initializer := ← transformer.transformExpression c.initializer }

/-- Transforms constants one after the other. -/
def transformConstants : List ConstantDecl → m (List ConstantDecl)
  | [] => pure []
  | c :: rest => do
    let c ← transformer.transformConstant c
    return c :: (← transformConstants rest)

mutual

/-- Transforms a statement. -/
def transformStatement (s : Statement) : m Statement :=
  transformer.statement s <| transformer.statementNode s <|
    match s with
    | .namespaceDecl info name simple body => do
      return .namespaceDecl info name simple (← transformStatements body)
    | .constants info decls => do
      return .constants info (← transformer.transformConstants decls)
    | .echo info parameters => do
      return .echo info (← transformer.transformExpressions parameters)
    | .expression info value => do
      return .expression info (← transformer.transformExpression value)
    | .block info body => do
      return .block info (← transformStatements body)

/-- Transforms statements one after the other. -/
def transformStatements : List Statement → m (List Statement)
  | [] => pure []
  | s :: rest => do
    let s ← transformStatement s
    return s :: (← transformStatements rest)

end

/-- Transforms a program. -/
def transform (program : Program) : m Program :=
  transformer.program program do
    return { program with statements := ← transformer.transformStatements program.statements }

end Transformer

end PhpFrontEnd
