import PhpFrontEnd.Text.Character

/-!
# Reserved words

The words a PHP program cannot use as plain names, with the constants whose names begin and end in
two underscores. A word is recognised in any mix of upper and lower case. Two of them, `die` and
`exit`, are the same keyword.
-/

namespace PhpFrontEnd

/-- A reserved word. -/
inductive Keyword where
  | abstract | logicalAnd | array | as | break_ | callable | case | catch_ | class_ | clone
  | const | continue_ | declare | default | exit | do_ | echo | else_ | elseIf | empty
  | endDeclare | endFor | endForeach | endIf | endSwitch | endWhile | enum | eval | extends_
  | final | finally_ | fn | for_ | foreach | function | global | goto | if_ | implements
  | include_ | includeOnce | instanceOf | insteadOf | interface | isset | list | match_
  | namespace_ | new | logicalOr | print | private_ | protected_ | public_ | readonly | require
  | requireOnce | return_ | static | switch | throw | trait | try_ | unset | use | var | while_
  | logicalXor | yield | haltCompiler | line | file | dir | className | traitName | methodName
  | functionName | namespaceName
  deriving DecidableEq, Inhabited

namespace Keyword

/-- Every spelling of a reserved word, in lower case, and the word it is. -/
def spellings : List (String × Keyword) :=
  [("abstract", .abstract), ("and", .logicalAnd), ("array", .array), ("as", .as),
   ("break", .break_), ("callable", .callable), ("case", .case), ("catch", .catch_),
   ("class", .class_), ("clone", .clone), ("const", .const), ("continue", .continue_),
   ("declare", .declare), ("default", .default), ("die", .exit), ("exit", .exit), ("do", .do_),
   ("echo", .echo), ("else", .else_), ("elseif", .elseIf), ("empty", .empty),
   ("enddeclare", .endDeclare), ("endfor", .endFor), ("endforeach", .endForeach),
   ("endif", .endIf), ("endswitch", .endSwitch), ("endwhile", .endWhile), ("enum", .enum),
   ("eval", .eval), ("extends", .extends_), ("final", .final), ("finally", .finally_),
   ("fn", .fn), ("for", .for_), ("foreach", .foreach), ("function", .function),
   ("global", .global), ("goto", .goto), ("if", .if_), ("implements", .implements),
   ("include", .include_), ("include_once", .includeOnce), ("instanceof", .instanceOf),
   ("insteadof", .insteadOf), ("interface", .interface), ("isset", .isset), ("list", .list),
   ("match", .match_), ("namespace", .namespace_), ("new", .new), ("or", .logicalOr),
   ("print", .print), ("private", .private_), ("protected", .protected_), ("public", .public_),
   ("readonly", .readonly), ("require", .require), ("require_once", .requireOnce),
   ("return", .return_), ("static", .static), ("switch", .switch), ("throw", .throw),
   ("trait", .trait), ("try", .try_), ("unset", .unset), ("use", .use), ("var", .var),
   ("while", .while_), ("xor", .logicalXor), ("yield", .yield),
   ("__halt_compiler", .haltCompiler), ("__line__", .line), ("__file__", .file),
   ("__dir__", .dir), ("__class__", .className), ("__trait__", .traitName),
   ("__method__", .methodName), ("__function__", .functionName),
   ("__namespace__", .namespaceName)]

/-- The reserved word that an identifier is, if it is one. -/
def ofWord? (word : String) : Option Keyword := spellings.lookup (lowerCase word)

/-- The name of a keyword in listings. -/
def name : Keyword → String
  | .abstract => "Abstract" | .logicalAnd => "LogicalAnd" | .array => "Array" | .as => "As"
  | .break_ => "Break" | .callable => "Callable" | .case => "Case" | .catch_ => "Catch"
  | .class_ => "Class" | .clone => "Clone" | .const => "Const" | .continue_ => "Continue"
  | .declare => "Declare" | .default => "Default" | .exit => "Exit" | .do_ => "Do"
  | .echo => "Echo" | .else_ => "Else" | .elseIf => "ElseIf" | .empty => "Empty"
  | .endDeclare => "EndDeclare" | .endFor => "EndFor" | .endForeach => "EndForeach"
  | .endIf => "EndIf" | .endSwitch => "EndSwitch" | .endWhile => "EndWhile" | .enum => "Enum"
  | .eval => "Eval" | .extends_ => "Extends" | .final => "Final" | .finally_ => "Finally"
  | .fn => "Fn" | .for_ => "For" | .foreach => "Foreach" | .function => "Function"
  | .global => "Global" | .goto => "Goto" | .if_ => "If" | .implements => "Implements"
  | .include_ => "Include" | .includeOnce => "IncludeOnce" | .instanceOf => "InstanceOf"
  | .insteadOf => "InsteadOf" | .interface => "Interface" | .isset => "Isset" | .list => "List"
  | .match_ => "Match" | .namespace_ => "Namespace" | .new => "New" | .logicalOr => "LogicalOr"
  | .print => "Print" | .private_ => "Private" | .protected_ => "Protected" | .public_ => "Public"
  | .readonly => "Readonly" | .require => "Require" | .requireOnce => "RequireOnce"
  | .return_ => "Return" | .static => "Static" | .switch => "Switch" | .throw => "Throw"
  | .trait => "Trait" | .try_ => "Try" | .unset => "Unset" | .use => "Use" | .var => "Var"
  | .while_ => "While" | .logicalXor => "LogicalXor" | .yield => "Yield"
  | .haltCompiler => "HaltCompiler" | .line => "Line" | .file => "File" | .dir => "Dir"
  | .className => "ClassC" | .traitName => "TraitC" | .methodName => "MethodC"
  | .functionName => "FuncC" | .namespaceName => "NsC"

end Keyword

end PhpFrontEnd
