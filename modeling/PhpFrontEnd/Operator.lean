import PhpFrontEnd.Token.Basic

/-!
# Operators of expressions

The operator that a unary or binary expression or an assignment applies. A token kind spells at
most one operator in each of these positions; a plus or a minus sign spells one in two of them.
Assignment by reference is spelled by two tokens, so no kind spells it.
-/

namespace PhpFrontEnd

/-- What an expression does with its operands. -/
inductive Operator where
  | add | subtract | multiply | divide | modulo | power | concat | bitAnd | bitOr | bitXor
  | shiftLeft | shiftRight | and | or | xor | equal | notEqual | identical | notIdentical | less
  | greater | atMost | atLeast | spaceship | coalesce
  | plus | minus | not | bitNot | silence | print | clone
  | castInt | castDouble | castString | castArray | castObject | castBool | castUnset
  | assign | assignRef | assignAdd | assignSubtract | assignMultiply | assignDivide | assignModulo
  | assignPower | assignConcat | assignAnd | assignOr | assignXor | assignShiftLeft
  | assignShiftRight | assignCoalesce
  deriving DecidableEq, Inhabited

namespace Operator

/-- Every operator: binary, unary, casts, assignments. -/
def all : List Operator :=
  [.add, .subtract, .multiply, .divide, .modulo, .power, .concat, .bitAnd, .bitOr, .bitXor,
   .shiftLeft, .shiftRight, .and, .or, .xor, .equal, .notEqual, .identical, .notIdentical, .less,
   .greater, .atMost, .atLeast, .spaceship, .coalesce, .plus, .minus, .not, .bitNot, .silence,
   .print, .clone, .castInt, .castDouble, .castString, .castArray, .castObject, .castBool,
   .castUnset, .assign, .assignRef, .assignAdd, .assignSubtract, .assignMultiply, .assignDivide,
   .assignModulo, .assignPower, .assignConcat, .assignAnd, .assignOr, .assignXor, .assignShiftLeft,
   .assignShiftRight, .assignCoalesce]

/-- The name of an operator in documents. -/
def name : Operator → String
  | .add => "Add" | .subtract => "Sub" | .multiply => "Mul" | .divide => "Div" | .modulo => "Mod"
  | .power => "Pow" | .concat => "Concat" | .bitAnd => "BitAnd" | .bitOr => "BitOr"
  | .bitXor => "BitXor" | .shiftLeft => "ShiftLeft" | .shiftRight => "ShiftRight" | .and => "And"
  | .or => "Or" | .xor => "Xor" | .equal => "Equal" | .notEqual => "NotEqual"
  | .identical => "Identical" | .notIdentical => "NotIdentical" | .less => "LessThan"
  | .greater => "GreaterThan" | .atMost => "LessThanOrEqual" | .atLeast => "GreaterThanOrEqual"
  | .spaceship => "Spaceship" | .coalesce => "Coalesce" | .plus => "Plus" | .minus => "Minus"
  | .not => "LogicNegation" | .bitNot => "BitNegation" | .silence => "AtSign" | .print => "Print"
  | .clone => "Clone" | .castInt => "Int64Cast" | .castDouble => "DoubleCast"
  | .castString => "StringCast" | .castArray => "ArrayCast" | .castObject => "ObjectCast"
  | .castBool => "BoolCast" | .castUnset => "UnsetCast" | .assign => "AssignValue"
  | .assignRef => "AssignRef" | .assignAdd => "AssignAdd" | .assignSubtract => "AssignSub"
  | .assignMultiply => "AssignMul" | .assignDivide => "AssignDiv" | .assignModulo => "AssignMod"
  | .assignPower => "AssignPow" | .assignConcat => "AssignAppend" | .assignAnd => "AssignAnd"
  | .assignOr => "AssignOr" | .assignXor => "AssignXor" | .assignShiftLeft => "AssignShiftLeft"
  | .assignShiftRight => "AssignShiftRight" | .assignCoalesce => "AssignCoalesce"

/-- The operator named in a document. -/
def ofName? (name : String) : Option Operator := all.find? (·.name == name)

/-! ## What tokens spell -/

/-- The binary operator that a mark spells. -/
def ofBinaryMark? : Mark → Option Operator
  | .plus => some .add | .minus => some .subtract | .star => some .multiply
  | .slash => some .divide | .percent => some .modulo | .power => some .power
  | .dot => some .concat | .ampersand => some .bitAnd | .pipe => some .bitOr
  | .caret => some .bitXor | .shiftLeft => some .shiftLeft | .shiftRight => some .shiftRight
  | .and => some .and | .or => some .or | .equal => some .equal | .notEqual => some .notEqual
  | .identical => some .identical | .notIdentical => some .notIdentical | .less => some .less
  | .greater => some .greater | .atMost => some .atMost | .atLeast => some .atLeast
  | .spaceship => some .spaceship | .coalesce => some .coalesce | _ => none

/-- The binary operator that a token kind spells. -/
def ofBinary? : TokenKind → Option Operator
  | .mark mark => ofBinaryMark? mark
  | .keyword .logicalAnd => some .and
  | .keyword .logicalOr => some .or
  | .keyword .logicalXor => some .xor
  | _ => none

/-- The operator of a cast. -/
def ofCast : CastType → Operator
  | .int => .castInt
  | .double => .castDouble
  | .string => .castString
  | .array => .castArray
  | .object => .castObject
  | .bool => .castBool
  | .unset => .castUnset

/-- The operator that a token kind spells in front of its operand. -/
def ofUnary? : TokenKind → Option Operator
  | .mark .plus => some .plus
  | .mark .minus => some .minus
  | .mark .bang => some .not
  | .mark .tilde => some .bitNot
  | .mark .at => some .silence
  | .keyword .print => some .print
  | .keyword .clone => some .clone
  | .cast type => some (ofCast type)
  | _ => none

/-- The assignment that a mark spells. -/
def ofAssignmentMark? : Mark → Option Operator
  | .assign => some .assign | .addAssign => some .assignAdd
  | .subtractAssign => some .assignSubtract | .multiplyAssign => some .assignMultiply
  | .divideAssign => some .assignDivide | .moduloAssign => some .assignModulo
  | .powerAssign => some .assignPower | .concatAssign => some .assignConcat
  | .andAssign => some .assignAnd | .orAssign => some .assignOr | .xorAssign => some .assignXor
  | .shiftLeftAssign => some .assignShiftLeft | .shiftRightAssign => some .assignShiftRight
  | .coalesceAssign => some .assignCoalesce | _ => none

/-- The assignment that a token kind spells. -/
def ofAssignment? : TokenKind → Option Operator
  | .mark mark => ofAssignmentMark? mark
  | _ => none

/-- Whether an operator assigns to its first operand. -/
def isAssignment : Operator → Bool
  | .assign | .assignRef | .assignAdd | .assignSubtract | .assignMultiply | .assignDivide
  | .assignModulo | .assignPower | .assignConcat | .assignAnd | .assignOr | .assignXor
  | .assignShiftLeft | .assignShiftRight | .assignCoalesce => true
  | _ => false

end Operator

end PhpFrontEnd
