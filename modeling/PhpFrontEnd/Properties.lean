import PhpFrontEnd.Naming
import PhpFrontEnd.Scope

/-!
# Annotations of nodes

Passes over a tree leave what they find out in a bag of annotations at each node, so that the tree
itself need not know of it. An annotation is found again under a name, or under its type: a bag
has one place for each type, which the typed operations read and write.

A bag keeps its entries in the order their keys were first stored, and each key once. Keys and
values are independent: a value may be stored under the key of another type. It is then not seen
by the typed operations that read, while those that write or remove replace it all the same.

What values there are is left to those who store them (`Bag`); the passes over syntax trees store
annotations (`PropertyBag`).
-/

namespace PhpFrontEnd

/-- Values each of which is of one type. -/
class Typed (α : Type) (τ : outParam Type) where
  /-- the type of a value -/
  type : α → τ

/-- The place of a value in a bag. -/
inductive BagKey (τ : Type) where
  | named (name : String)
  | ofType (type : τ)
  deriving DecidableEq

/-- Values found under keys. -/
structure Bag (τ α : Type) where
  /-- keys and values, in the order the keys were first stored -/
  entries : List (BagKey τ × α) := []
  deriving DecidableEq, Inhabited

namespace Bag

variable {τ α : Type}

def keys (bag : Bag τ α) : List (BagKey τ) := bag.entries.map (·.1)

def size (bag : Bag τ α) : Nat := bag.entries.length

def isEmpty (bag : Bag τ α) : Bool := bag.entries.isEmpty

/-- Removes everything. -/
def clear (_ : Bag τ α) : Bag τ α := {}

variable [DecidableEq τ]

def contains (bag : Bag τ α) (key : BagKey τ) : Bool := bag.keys.contains key

/-! ## By key -/

/-- What is stored under a key. -/
def get? (bag : Bag τ α) (key : BagKey τ) : Option α := bag.entries.lookup key

/-- Puts a value in the place of a key, or behind all others if the key is new. -/
def insertEntry (key : BagKey τ) (value : α) : List (BagKey τ × α) → List (BagKey τ × α)
  | [] => [(key, value)]
  | (k, v) :: rest =>
    if k = key then (k, value) :: rest else (k, v) :: insertEntry key value rest

/-- Stores a value under a key. -/
def insert (bag : Bag τ α) (key : BagKey τ) (value : α) : Bag τ α :=
  ⟨insertEntry key value bag.entries⟩

/-- Removes a key and what is stored under it. -/
def erase (bag : Bag τ α) (key : BagKey τ) : Bag τ α :=
  ⟨bag.entries.eraseP fun entry => entry.1 = key⟩

/-- Stores a value under a key, and gives out the one that it replaces. -/
def getThenInsert (bag : Bag τ α) (key : BagKey τ) (value : α) : Option α × Bag τ α :=
  (bag.get? key, bag.insert key value)

/-- Removes a key, and gives out what is stored under it. -/
def getThenErase (bag : Bag τ α) (key : BagKey τ) : Option α × Bag τ α :=
  (bag.get? key, bag.erase key)

/-! ## By type -/

variable [Typed α τ]

/-- A value, if it is of a type. -/
def ofType? (type : τ) (value : Option α) : Option α :=
  value.filter fun value => Typed.type value = type

/-- What is stored under a key, if it is of a type. -/
def getAs? (bag : Bag τ α) (key : BagKey τ) (type : τ) : Option α := ofType? type (bag.get? key)

/-- The value of a type. -/
def getType? (bag : Bag τ α) (type : τ) : Option α := bag.getAs? (.ofType type) type

/-- Stores a value in the place of its type. -/
def insertType (bag : Bag τ α) (value : α) : Bag τ α :=
  bag.insert (.ofType (Typed.type value)) value

/-- Replaces the value of a type, if there is one. -/
def replaceType (bag : Bag τ α) (value : α) : Bag τ α :=
  if (bag.getType? (Typed.type value)).isSome then bag.insertType value else bag

/-- Removes what is stored in the place of a type. -/
def eraseType (bag : Bag τ α) (type : τ) : Bag τ α := bag.erase (.ofType type)

/-- Stores a value in the place of its type, and gives out the one that it replaces if that is of
the same type. -/
def getThenInsertType (bag : Bag τ α) (value : α) : Option α × Bag τ α :=
  let (replaced, bag) := bag.getThenInsert (.ofType (Typed.type value)) value
  (ofType? (Typed.type value) replaced, bag)

/-- Replaces the value of a type and gives it out, if there is one. -/
def getThenReplaceType (bag : Bag τ α) (value : α) : Option α × Bag τ α :=
  (bag.getType? (Typed.type value), bag.replaceType value)

/-- Removes what is stored in the place of a type, and gives it out if it is of that type. -/
def getThenEraseType (bag : Bag τ α) (type : τ) : Option α × Bag τ α :=
  let (removed, bag) := bag.getThenErase (.ofType type)
  (ofType? type removed, bag)

end Bag

/-! ## Annotations -/

/-- The types of annotations. -/
inductive AnnotationType where
  | int
  | str
  | bool
  | list
  | scope
  | naming
  deriving DecidableEq

/-- What a pass leaves at a node. -/
inductive Annotation where
  | int (value : Int64)
  | str (value : String)
  | bool (value : Bool)
  | list (value : List Int64)
  | scope (value : Scope)
  | naming (value : Naming)
  deriving DecidableEq

/-- The type of an annotation. -/
def Annotation.type : Annotation → AnnotationType
  | .int _ => .int
  | .str _ => .str
  | .bool _ => .bool
  | .list _ => .list
  | .scope _ => .scope
  | .naming _ => .naming

instance : Typed Annotation AnnotationType where
  type := Annotation.type

/-- The place of an annotation in a bag. -/
abbrev PropertyKey := BagKey AnnotationType

/-- The annotations of a node. -/
abbrev PropertyBag := Bag AnnotationType Annotation

namespace PropertyBag

def empty : PropertyBag := {}

/-- The naming context, if one is stored. -/
def naming? (bag : PropertyBag) : Option Naming :=
  match bag.getType? .naming with
  | some (.naming naming) => some naming
  | _ => none

end PropertyBag

end PhpFrontEnd
