/-!
# UTF-8

A character is written as one to four octets. Reading goes the other way over any octets at all:
`Utf8.units` cuts them into well-formed sequences, each of which is a character, and maximal
ill-formed parts, each of which is `none`. An ill-formed part is a first octet together with as
many of the octets it calls for as really follow, so that one damaged character counts once.

Which octets may follow a first octet is the table of well-formed sequences of the Unicode
standard, `Utf8.Owed.of?`: it rules out overlong forms, surrogates and values above U+10FFFF by
narrowing the range of the second octet.
-/

namespace PhpFrontEnd.Utf8

/-! ## Writing -/

/-- The octets of one character. -/
def encode (c : Char) : List UInt8 :=
  let v := c.toNat
  if v < 0x80 then [.ofNat v]
  else if v < 0x800 then [.ofNat (0xC0 + v / 0x40), .ofNat (0x80 + v % 0x40)]
  else if v < 0x10000 then
    [.ofNat (0xE0 + v / 0x1000), .ofNat (0x80 + v / 0x40 % 0x40), .ofNat (0x80 + v % 0x40)]
  else
    [.ofNat (0xF0 + v / 0x40000), .ofNat (0x80 + v / 0x1000 % 0x40),
      .ofNat (0x80 + v / 0x40 % 0x40), .ofNat (0x80 + v % 0x40)]

/-- The octets of a text. -/
def encodeAll (text : List Char) : List UInt8 := text.flatMap encode

/-! ## Reading -/

/-- What a first octet calls for. -/
structure Owed where
  /-- the bits of the character that the first octet holds -/
  bits : Nat
  /-- the least second octet -/
  low : UInt8
  /-- the greatest second octet -/
  high : UInt8
  /-- how many octets come after the second -/
  more : Nat

/-- The first octets of sequences longer than one, and what each calls for. -/
def Owed.of? (b : UInt8) : Option Owed :=
  if 0xC2 ≤ b ∧ b ≤ 0xDF then some ⟨b.toNat - 0xC0, 0x80, 0xBF, 0⟩
  else if b = 0xE0 then some ⟨0, 0xA0, 0xBF, 1⟩
  else if b = 0xED then some ⟨0xD, 0x80, 0x9F, 1⟩
  else if 0xE1 ≤ b ∧ b ≤ 0xEF then some ⟨b.toNat - 0xE0, 0x80, 0xBF, 1⟩
  else if b = 0xF0 then some ⟨0, 0x90, 0xBF, 2⟩
  else if 0xF1 ≤ b ∧ b ≤ 0xF3 then some ⟨b.toNat - 0xF0, 0x80, 0xBF, 2⟩
  else if b = 0xF4 then some ⟨4, 0x80, 0x8F, 2⟩
  else none

/-- Octets that carry six more bits of a character. -/
def isTail (b : UInt8) : Bool := 0x80 ≤ b ∧ b ≤ 0xBF

/-- The value of a character whose leading bits are known and whose last octets are given. -/
def addTails (bits : Nat) (tails : List UInt8) : Nat :=
  tails.foldl (fun v b => v * 0x40 + (b.toNat - 0x80)) bits

/-- Reads at a first octet: the character, or `none` for an ill-formed part, and how many of the
octets that follow belong to it. -/
def readAt (b : UInt8) (rest : List UInt8) : Option Char × Nat :=
  if b < 0x80 then (some (.ofNat b.toNat), 0)
  else
    match Owed.of? b, rest with
    | some owed, second :: rest =>
      if owed.low ≤ second ∧ second ≤ owed.high then
        let tails := (rest.take owed.more).takeWhile isTail
        if tails.length = owed.more then
          (some (.ofNat (addTails owed.bits (second :: tails))), owed.more + 1)
        else (none, tails.length + 1)
      else (none, 0)
    | _, _ => (none, 0)

/-- The units that begin after the first `passed` octets. -/
def unitsAfter : (passed : Nat) → List UInt8 → List (Option Char)
  | _, [] => []
  | passed + 1, _ :: rest => unitsAfter passed rest
  | 0, b :: rest =>
    let (unit, passed) := readAt b rest
    unit :: unitsAfter passed rest

/-- The octets cut into characters and ill-formed parts. -/
def units (octets : List UInt8) : List (Option Char) := unitsAfter 0 octets

/-- The character that stands for an ill-formed part. -/
def replacement : Char := '\uFFFD'

/-- Reads any octets; an ill-formed part becomes the replacement character. -/
def decodeLossy (octets : List UInt8) : List Char := (units octets).map (·.getD replacement)

/-- Reads octets only if all of them are well formed. -/
def decode? (octets : List UInt8) : Option (List Char) := (units octets).mapM id

end PhpFrontEnd.Utf8
