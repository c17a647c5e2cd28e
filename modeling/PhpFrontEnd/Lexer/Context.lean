import PhpFrontEnd.Span

/-!
# What a lexer remembers

How the next characters are to be read depends on what has been opened before them. A lexer is in
one of eleven modes and keeps the modes it will return to; a string enters its own mode, an
interpolation inside it enters code again, and closing either goes back to what encloses it.
Besides the modes a lexer keeps the label that closes the heredoc it is in, and the documentation
comment that waits for the next declaration.

All this is a value, the `Context`. Together with the rest of the source it is everything a lexer
needs to go on from where it stopped.
-/

namespace PhpFrontEnd

/-- How the next characters are read. -/
inductive Mode where
  /-- outside of code: everything up to an opening tag is markup -/
  | markup
  | code
  | doubleQuoted
  | singleQuoted
  | backquoted
  | heredoc
  | nowdoc
  /-- the closing label of a heredoc is next -/
  | closingLabel
  /-- after an arrow: a label is the name of a property -/
  | property
  /-- after a dollar sign and a brace: a bare label is the name of a variable -/
  | variableName
  /-- after a variable and a bracket inside a string -/
  | offset
  deriving DecidableEq, Inhabited

/-- Modes in which characters are text rather than code. -/
def Mode.isString : Mode → Bool
  | .doubleQuoted | .singleQuoted | .backquoted | .heredoc | .nowdoc => true
  | _ => false

/-- A change of modes. -/
inductive ModeChange where
  | push (inner : Mode)
  | pop
  | enter (mode : Mode)
  deriving DecidableEq

/-- A documentation comment that waits for a declaration. -/
structure DocComment where
  text : String
  span : Span
  deriving DecidableEq

/-- Everything a lexer remembers, apart from where it is. -/
structure Context where
  mode : Mode := .markup
  /-- the modes to return to, innermost first -/
  enclosing : List Mode := []
  /-- the label that closes the heredoc -/
  label : Option String := none
  /-- the pending documentation comment -/
  doc : Option DocComment := none
  deriving DecidableEq

namespace Context

/-- Enters a mode inside the present one. -/
def push (context : Context) (mode : Mode) : Context :=
  { context with mode, enclosing := context.mode :: context.enclosing }

/-- Returns to the enclosing mode; to code, if nothing encloses this one. -/
def pop (context : Context) : Context :=
  match context.enclosing with
  | [] => { context with mode := .code }
  | mode :: enclosing => { context with mode, enclosing }

/-- Goes on in another mode in place of the present one. -/
def enter (context : Context) (mode : Mode) : Context := { context with mode }

/-- Changes the modes. -/
def change (context : Context) : ModeChange → Context
  | .push inner => context.push inner
  | .pop => context.pop
  | .enter mode => context.enter mode

/-- Forgets the pending documentation comment. -/
def dropDoc (context : Context) : Context := { context with doc := none }

end Context

end PhpFrontEnd
