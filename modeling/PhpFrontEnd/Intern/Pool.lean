import PhpFrontEnd.Intern.Table

/-!
# The pool of tables

A lexing session takes a table of shared texts from a pool and gives it back when it ends, so that
the next session finds the usual texts already there. The table given back last is taken first.
The pool stays small in both directions: it keeps sixteen tables, and a table that has grown past
16384 texts is emptied on its way back.

A `TextStore` is a pool together with the tables that are out, each held under a number of its
own. It also numbers tables and copies of texts as they are made.
-/

namespace PhpFrontEnd

/-- Tables that wait to be taken, the one given back last first. -/
structure TablePool where
  tables : List TextTable := []

namespace TablePool

/-- How many tables a pool keeps. -/
def maxTables : Nat := 16

/-- How many texts a table may come back with. -/
def maxTexts : Nat := 16384

/-- How many tables wait. -/
def available (pool : TablePool) : Nat := pool.tables.length

/-- A table as it is given back: without its texts if there are too many. -/
def kept (table : TextTable) : TextTable := if maxTexts < table.size then table.clear else table

/-- Takes back a table, if there is room for it. -/
def giveBack (pool : TablePool) (table : TextTable) : TablePool :=
  if pool.available < maxTables then ⟨kept table :: pool.tables⟩ else pool

end TablePool

/-- A pool and the tables that are out. -/
structure TextStore where
  pool : TablePool := {}
  /-- the tables that are out, each under its own number -/
  held : List (Nat × TextTable) := []
  /-- the number of the table that is made next -/
  nextTable : Nat := 0
  /-- the identity of the copy of a text that is made next -/
  nextText : Nat := 0

namespace TextStore

/-- The table held under a number. -/
def held? (store : TextStore) (slot : Nat) : Option TextTable := store.held.lookup slot

/-- Holds a table under a number, in place of what was held there. -/
def hold (store : TextStore) (slot : Nat) (table : TextTable) : TextStore :=
  { store with held := (slot, table) :: store.held.filter (·.1 ≠ slot) }

/-- A table from the pool, or an empty one that is made for the purpose. -/
def take (store : TextStore) : TextTable × TextStore :=
  match store.pool.tables with
  | table :: rest => (table, { store with pool := ⟨rest⟩ })
  | [] => ({ id := store.nextTable }, { store with nextTable := store.nextTable + 1 })

/-- Gives back the table held under a number. -/
def release (store : TextStore) (slot : Nat) : TextStore :=
  match store.held? slot with
  | some table =>
    { store with
      pool := store.pool.giveBack table
      held := store.held.filter (·.1 ≠ slot) }
  | none => store

/-- Takes a table and holds it under a number. What was held there is given back afterwards. -/
def acquire (store : TextStore) (slot : Nat) : TextStore :=
  let (table, store) := store.take
  (store.release slot).hold slot table

/-- Holds a new table that has nothing to do with the pool. -/
def create (store : TextStore) (slot : Nat) : TextStore :=
  { store.hold slot { id := store.nextTable } with nextTable := store.nextTable + 1 }

/-- Empties the table held under a number. -/
def clear (store : TextStore) (slot : Nat) : TextStore :=
  match store.held? slot with
  | some table => store.hold slot table.clear
  | none => store

/-- Asks the table held under a number for something. -/
def ask (store : TextStore) (slot : Nat) (question : TextTable → Nat → Shared) :
    Option Nat × TextStore :=
  match store.held? slot with
  | some table =>
    let shared := question table store.nextText
    (some shared.identity, { store.hold slot shared.table with nextText := shared.next })
  | none => (none, store)

/-- Asks the table held under a number for a text. -/
def share (store : TextStore) (slot : Nat) (text : String) : Option Nat × TextStore :=
  store.ask slot (·.share text)

/-- Asks the table held under a number for the text of some characters. -/
def shareChars (store : TextStore) (slot : Nat) (chars : List Char) : Option Nat × TextStore :=
  store.ask slot (·.shareChars chars)

/-- Asks a table for the texts of some characters, one after the other. -/
def shareAll (table : TextTable) (next : Nat) (texts : List String) : TextTable × Nat :=
  texts.foldl (fun (table, next) text =>
    let shared := table.shareChars text.toList next
    (shared.table, shared.next)) (table, next)

/-- A session: takes a table, asks it for the texts that the session meets, and gives it back. -/
def session (store : TextStore) (texts : List String) : TextStore :=
  let (table, store) := store.take
  let (table, nextText) := shareAll table store.nextText texts
  { store with pool := store.pool.giveBack table, nextText }

/-- How many tables wait while a session goes on. -/
def availableInSession (store : TextStore) : Nat := store.take.2.pool.available

end TextStore

end PhpFrontEnd
