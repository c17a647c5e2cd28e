import PhpFrontEnd.Text.Basic
import PhpFrontEnd.Text.Character
import PhpFrontEnd.Text.Encoding

/-!
# Escapes in quoted text

The body of a literal stands for itself except where a backslash begins an escape. Which escapes
there are depends on the quotes: single quotes know two, double quotes and heredocs know the
control characters, bytes in octal or hexadecimal and, if switched on, code points; backquotes add
their own quote. A backslash that begins no escape stays, together with the character after it.

A body without escapes is its own value (`Unescaped.verbatim`), and nothing is built for it. With
escapes the value is built as bytes, since an escape may spell any byte, and it is text if those
bytes are well formed in the source encoding. What lies between two escapes is copied in one go
(`Rewriting`).
-/

namespace PhpFrontEnd

/-- Which escapes a body knows. -/
inductive EscapeMode where
  /-- a backslash and the quote -/
  | single
  /-- double quotes and heredocs -/
  | double
  /-- double quotes and the backquote -/
  | backquote
  deriving DecidableEq

/-- How a body is decoded. -/
structure EscapeRules where
  mode : EscapeMode
  encoding : Encoding
  /-- whether code points may be named -/
  codePoints : Bool
  /-- whether the value is bytes in any case -/
  binary : Bool

/-- What an escape stands for. -/
inductive Escape where
  | char (c : Char)
  | byte (b : UInt8)
  | codePoint (value : Nat)

/-- The value of a body. -/
inductive Unescaped where
  /-- the body itself -/
  | verbatim
  /-- a value built from escapes; whether one of them names no character -/
  | rebuilt (text : Text) (invalidCodePoint : Bool)

namespace Escape

/-! ## Reading one escape -/

/-- The number that digits denote in a radix. -/
def valueOf (radix : Nat) (digits : List Char) : Nat :=
  digits.foldl (fun n c => n * radix + (digitValue? radix c).getD 0) 0

/-- Escapes of one letter and the character each stands for. -/
def controls : List (Char × Char) :=
  [('n', '\n'), ('r', '\r'), ('t', '\t'), ('v', '\x0b'), ('e', '\x1b'), ('f', '\x0c')]

/-- Characters that a backslash makes stand for themselves. -/
def protects (mode : EscapeMode) (c : Char) : Bool :=
  match mode with
  | .single => c == '\\' || c == '\x27'
  | .double => c == '\\' || c == '$' || c == '"'
  | .backquote => c == '\\' || c == '$' || c == '"' || c == '\x60'

/-- One to six hexadecimal digits in braces, with the number of characters they take. -/
def readBraced? (text : List Char) : Option (Escape × Nat) :=
  match text with
  | '\x7b' :: rest =>
    let digits := (rest.take 6).takeWhile (isDigitOf 16)
    if !digits.isEmpty && (rest.drop digits.length).head? == some '\x7d' then
      some (.codePoint (valueOf 16 digits), digits.length + 2)
    else none
  | _ => none

/-- Reads the escape after a backslash: what it stands for, and how many characters it takes
besides the backslash. -/
def read? (rules : EscapeRules) (text : List Char) : Option (Escape × Nat) :=
  match text with
  | [] => none
  | c :: rest =>
    if protects rules.mode c then some (.char c, 1)
    else if rules.mode = .single then none
    else
      match controls.lookup c with
      | some control => some (.char control, 1)
      | none =>
        if c = 'x' then
          let digits := (rest.take 2).takeWhile (isDigitOf 16)
          if digits.isEmpty then none
          else some (.byte (.ofNat (valueOf 16 digits)), digits.length + 1)
        else if c = 'u' then
          if rules.codePoints then (readBraced? rest).map fun (e, n) => (e, n + 1) else none
        else
          let digits := ((c :: rest).take 3).takeWhile (isDigitOf 8)
          if digits.isEmpty then none
          else some (.byte (.ofNat (valueOf 8 digits)), digits.length)

/-! ## What an escape stands for -/

/-- Whether an escape names a code point that no character has. -/
def isInvalid : Escape → Bool
  | .codePoint value => !decide value.isValidChar
  | _ => false

/-- The bytes of an escape. A code point is written in UTF-8 whatever the source encoding is, and
one that no character has is a question mark. -/
def bytes (encoding : Encoding) : Escape → List UInt8
  | .char c => encoding.encode c
  | .byte b => [b]
  | .codePoint value => if value.isValidChar then Utf8.encode (.ofNat value) else [0x3F]

end Escape

/-! ## Reading a body -/

/-- Bytes as the value of a literal. -/
def EscapeRules.textOf (rules : EscapeRules) (bytes : List UInt8) : Text :=
  if rules.binary then .bytes bytes
  else
    match rules.encoding.decode? bytes with
    | some chars => .ofChars chars
    | none => .bytes bytes

/-- A value that is being built. Nothing is written before the first escape. From then on, what was
passed is copied when an escape is reached or the body ends. -/
structure Rewriting where
  /-- the bytes written so far, once there is an escape -/
  written : Option (Array UInt8) := none
  /-- the body from the first character that is not copied -/
  uncopied : List Char
  /-- how many of these characters were passed -/
  passed : Nat := 0
  /-- whether an escape names no character -/
  invalid : Bool := false

namespace Rewriting

/-- Passes characters that stand for themselves. -/
def pass (state : Rewriting) (n : Nat) : Rewriting := { state with passed := state.passed + n }

/-- Copies what was passed, and writes an escape after it. -/
def write (encoding : Encoding) (state : Rewriting) (e : Escape) (rest : List Char) : Rewriting :=
  { written := some (state.written.getD #[] ++ encoding.encodeAll (state.uncopied.take state.passed)
      ++ e.bytes encoding)
    uncopied := rest
    invalid := state.invalid || e.isInvalid }

/-- Goes through a body from left to right. The first `taken` characters belong to the escape that
was written last. -/
def run (rules : EscapeRules) : (taken : Nat) → Rewriting → List Char → Rewriting
  | _, state, [] => state
  | taken + 1, state, _ :: rest => run rules taken state rest
  | 0, state, '\\' :: rest =>
    match Escape.read? rules rest with
    | some (e, length) => run rules length (state.write rules.encoding e (rest.drop length)) rest
    | none =>
      match rest with
      | [] => state.pass 1
      | _ :: rest => run rules 0 (state.pass 2) rest
  | 0, state, _ :: rest => run rules 0 (state.pass 1) rest

/-- The value, with what is still to be copied at its end. -/
def finish (rules : EscapeRules) (state : Rewriting) : Unescaped :=
  match if rules.binary then some (state.written.getD #[]) else state.written with
  | some bytes =>
    .rebuilt (rules.textOf (bytes ++ rules.encoding.encodeAll state.uncopied).toList) state.invalid
  | none => .verbatim

end Rewriting

/-- Decodes a body. -/
def unescape (rules : EscapeRules) (body : List Char) : Unescaped :=
  match body.findIdx? (· == '\\') with
  | none =>
    if rules.binary then .rebuilt (rules.textOf (rules.encoding.encodeAll body)) false
    else .verbatim
  | some first =>
    (Rewriting.run rules 0 { uncopied := body, passed := first } (body.drop first)).finish rules

/-! ## The body of a literal -/

/-- Where the body of a literal lies between its quotes, and whether it is marked as binary. -/
structure QuotedBounds where
  start : Nat
  stop : Nat
  binary : Bool

/-- Takes the quotes off a literal, and the letter of a binary literal with them. A text that is
not quoted on both sides is its own body. -/
def QuotedBounds.of (quote : Char) (literal : List Char) : QuotedBounds :=
  let binary := nextIs (fun c => c == 'b' || c == 'B') literal
  let quoted := if binary then literal.drop 1 else literal
  if 2 ≤ quoted.length ∧ quoted.head? = some quote ∧ quoted.getLast? = some quote then
    ⟨literal.length - quoted.length + 1, literal.length - 1, binary⟩
  else ⟨0, literal.length, false⟩

end PhpFrontEnd
