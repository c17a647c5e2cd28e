import Std.Data.HashMap

/-!
# Shared texts

Tokens repeat the same texts over and over, and each is kept only once. A table hands out, for
every text, the copy that it keeps; the first time a text is met the copy is made. Copies are told
apart by identities, which are numbered in the order the copies are made, so that asking for a text
twice gives one identity, and asking again after the table was cleared gives a new one.

A lexer has characters and not a text. They are put together in a buffer of the table, which is used
over and over, so that a text that is already there is not made again.
-/

namespace PhpFrontEnd

/-- Texts that are kept once. -/
structure TextTable where
  /-- which table this is -/
  id : Nat
  /-- the texts, with the identity of the copy of each -/
  entries : Std.HashMap String Nat := {}
  /-- where characters are put together when their text is asked for -/
  buffer : String := ""

/-- What comes of asking a table for a text. -/
structure Shared where
  /-- the identity of the copy -/
  identity : Nat
  table : TextTable
  /-- the identity of the copy that is made next -/
  next : Nat

namespace TextTable

/-- The number of texts. -/
def size (table : TextTable) : Nat := table.entries.size

def isEmpty (table : TextTable) : Bool := table.entries.isEmpty

/-- The table without its texts. -/
def clear (table : TextTable) : TextTable := { table with entries := {}, buffer := "" }

/-- Asks for a text. -/
def share (table : TextTable) (text : String) (next : Nat) : Shared :=
  match table.entries[text]? with
  | some identity => { identity, table, next }
  | none =>
    { identity := next
      table := { table with entries := table.entries.insert text next }
      next := next + 1 }

/-- Asks for the text of some characters. They take the place of what is in the buffer, which is out
of the table while the text is looked up. -/
def shareChars (table : TextTable) (chars : List Char) (next : Nat) : Shared :=
  let text := String.ofList chars
  let shared := { table with buffer := "" }.share text next
  { shared with table := { shared.table with buffer := text } }

end TextTable

end PhpFrontEnd
