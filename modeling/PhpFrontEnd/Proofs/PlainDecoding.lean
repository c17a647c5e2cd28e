import Mathlib.Data.List.Induction
import Mathlib.Data.List.TakeWhile
import PhpFrontEnd.Proofs.BodyPieces
import PhpFrontEnd.Proofs.IntegerValue

/-!
# Decoding by the grammar of escapes

Without a thought for how much is copied, a body is decoded like this. Go from left to right. If an
escape begins after a backslash, its bytes are emitted, and it is skipped. If none does, the
backslash and the character after it are emitted as they are, and both are skipped. Any other
character is emitted, and so is a backslash at the very end (`Decodes`).

Which escapes there are is said by rules of grammar (`Begins`), each of which tells the text of an
escape, what is emitted for it, and what comes after. Digits are taken as long as there are some, up
to a number that depends on the escape.

A body has just one such decoding, and its value is what was emitted: as text where the source
encoding has one, as bytes otherwise; or the body itself if it is not binary and no escape begins in
it (`unescape_decodes`).
-/

namespace PhpFrontEnd

/-! ## The grammar of escapes -/

/-- What is emitted for a part of a body. -/
structure Emitted where
  bytes : List UInt8
  /-- whether an escape is among it -/
  rewritten : Bool := false
  /-- whether one of the escapes names no character -/
  invalid : Bool := false

namespace Emitted

/-- One thing emitted after another. -/
def append (first second : Emitted) : Emitted :=
  ⟨first.bytes ++ second.bytes, first.rewritten || second.rewritten,
    first.invalid || second.invalid⟩

instance : Append Emitted := ⟨append⟩

/-- A character that stands for itself. -/
def char (encoding : Encoding) (c : Char) : Emitted := { bytes := encoding.encode c }

/-- What escapes stand for. -/
def escape (bytes : List UInt8) : Emitted := { bytes, rewritten := true }

/-- The question mark for a code point that no character has. -/
def questionMark : Emitted := { bytes := [0x3F], rewritten := true, invalid := true }

/-- What was emitted, as the value of a literal: text, unless the literal is binary or the bytes are
none in the source encoding. -/
inductive IsValue (rules : EscapeRules) (emitted : Emitted) : Text → Prop where
  | bytes (h : rules.binary = true ∨ rules.encoding.decode? emitted.bytes = none) :
      IsValue rules emitted (.bytes emitted.bytes)
  | chars {chars : List Char} (binary : rules.binary = false)
      (h : rules.encoding.decode? emitted.bytes = some chars) :
      IsValue rules emitted (.ofChars chars)

end Emitted

namespace Escape

/-- The escapes of one character that double quotes and backquotes know. -/
def simpleInterpolated : List (Char × Char) :=
  [('n', '\n'), ('r', '\r'), ('t', '\t'), ('v', '\x0b'), ('e', '\x1b'), ('f', '\x0c'),
    ('\\', '\\'), ('$', '$'), ('"', '"')]

/-- Escapes of one character, each with the character that it stands for. -/
def simple : EscapeMode → List (Char × Char)
  | .single => [('\\', '\\'), ('\x27', '\x27')]
  | .double => simpleInterpolated
  | .backquote => ('\x60', '\x60') :: simpleInterpolated

/-- The number that digits denote in a radix. -/
inductive Denotes (radix : Nat) : List Char → Nat → Prop where
  | digit {c : Char} {d : Nat} (h : digitValue? radix c = some d) : Denotes radix [c] d
  | append {digits : List Char} {n : Nat} {c : Char} {d : Nat} (front : Denotes radix digits n)
      (h : digitValue? radix c = some d) : Denotes radix (digits ++ [c]) (n * radix + d)

/-- Digits with a number, of which there are at most so many, and if there are less then because no
other digit comes after them. -/
structure Longest (radix most : Nat) (digits rest : List Char) (value : Nat) : Prop where
  denotes : Denotes radix digits value
  atMost : digits.length ≤ most
  longest : digits.length = most ∨ nextIs (isDigitOf radix) rest = false

/-- How a text begins with an escape, the backslash left out: what is emitted for it, and the text
after it. -/
inductive Begins (rules : EscapeRules) : List Char → Emitted → List Char → Prop where
  | simple {name c : Char} {rest : List Char} (h : (name, c) ∈ simple rules.mode) :
      Begins rules (name :: rest) (.escape (rules.encoding.encode c)) rest
  /-- one or two digits -/
  | hexadecimal {digits rest : List Char} {b : UInt8} (mode : rules.mode ≠ .single)
      (h : Longest 16 2 digits rest b.toNat) :
      Begins rules ('x' :: (digits ++ rest)) (.escape [b]) rest
  /-- one to three digits, which may denote more than a byte -/
  | octal {digits rest : List Char} {value : Nat} {b : UInt8} (mode : rules.mode ≠ .single)
      (h : Longest 8 3 digits rest value) (wraps : b.toNat = value % 256) :
      Begins rules (digits ++ rest) (.escape [b]) rest
  /-- one to six digits in braces -/
  | codePoint {digits rest : List Char} {c : Char} (mode : rules.mode ≠ .single)
      (enabled : rules.codePoints = true) (atMost : digits.length ≤ 6)
      (denotes : Denotes 16 digits c.toNat) :
      Begins rules ('u' :: '\x7b' :: (digits ++ '\x7d' :: rest)) (.escape (Utf8.encode c)) rest
  /-- half of a surrogate pair, or more than there are code points -/
  | noCharacter {digits rest : List Char} {value : Nat} (mode : rules.mode ≠ .single)
      (enabled : rules.codePoints = true) (atMost : digits.length ≤ 6)
      (denotes : Denotes 16 digits value)
      (none : 0xD800 ≤ value ∧ value ≤ 0xDFFF ∨ 0x10FFFF < value) :
      Begins rules ('u' :: '\x7b' :: (digits ++ '\x7d' :: rest)) .questionMark rest

end Escape

/-- What is emitted for a body, left to right. -/
inductive Decodes (rules : EscapeRules) : List Char → Emitted → Prop where
  | nil : Decodes rules [] { bytes := [] }
  | escape {text rest : List Char} {e later : Emitted} (h : Escape.Begins rules text e rest)
      (goesOn : Decodes rules rest later) : Decodes rules ('\\' :: text) (e ++ later)
  /-- no escape -/
  | kept {c : Char} {rest : List Char} {later : Emitted}
      (h : ∀ e after, ¬Escape.Begins rules (c :: rest) e after)
      (goesOn : Decodes rules rest later) :
      Decodes rules ('\\' :: c :: rest)
        (.char rules.encoding '\\' ++ (.char rules.encoding c ++ later))
  /-- a backslash at the end -/
  | last : Decodes rules ['\\'] (.char rules.encoding '\\')
  | plain {c : Char} {rest : List Char} {later : Emitted} (h : c ≠ '\\')
      (goesOn : Decodes rules rest later) :
      Decodes rules (c :: rest) (.char rules.encoding c ++ later)

namespace Escape

variable {rules : EscapeRules} {radix most value : Nat} {digits rest text : List Char}

/-! ## Digits -/

/-- One digit more multiplies a number by the radix. -/
theorem valueOf_append (digits : List Char) {c : Char} {d : Nat}
    (h : digitValue? radix c = some d) :
    valueOf radix (digits ++ [c]) = valueOf radix digits * radix + d := by
  rw [valueOf, List.foldl_append, List.foldl_cons, List.foldl_nil, h]
  rfl

/-- The number that digits denote is the one computed from them. -/
theorem denotes_iff : Denotes radix digits value ↔
    digits ≠ [] ∧ (∀ c ∈ digits, isDigitOf radix c) ∧ value = valueOf radix digits := by
  constructor
  · intro h
    induction h with
    | digit h =>
      refine ⟨List.cons_ne_nil _ _, fun c mem => ?_, by simp [valueOf, h]⟩
      rw [List.mem_singleton.1 mem, isDigitOf, h]
      rfl
    | append front h ih =>
      refine ⟨by simp, fun c mem => ?_, by rw [valueOf_append _ h, ih.2.2]⟩
      rcases List.mem_append.1 mem with mem | mem
      · exact ih.2.1 c mem
      · rw [List.mem_singleton.1 mem, isDigitOf, h]
        rfl
  · -- the last digit was read last
    rintro ⟨ne, all, rfl⟩
    induction digits using List.reverseRecOn with
    | nil => exact absurd rfl ne
    | append_singleton front c ih =>
      obtain ⟨d, h⟩ := Option.isSome_iff_exists.1 (all c (by simp))
      rcases front.eq_nil_or_concat with rfl | ⟨_, _, eq⟩
      · simpa [valueOf, h] using Denotes.digit h
      · rw [valueOf_append _ h]
        exact .append (ih (by simp [eq]) fun other mem => all other (by simp [mem])) h

/-- As many digits as there are bound their number. -/
theorem Denotes.lt (h : Denotes radix digits value) : value < radix ^ digits.length := by
  induction h with
  | digit h => simpa using IntegerLiteral.digitValue?_lt h
  | @append digits n c d front h ih =>
    have less := IntegerLiteral.digitValue?_lt h
    calc
      n * radix + d < (n + 1) * radix := by
        rw [Nat.succ_mul]
        exact Nat.add_lt_add_left less _
      _ ≤ radix ^ digits.length * radix := Nat.mul_le_mul_right radix ih
      _ = radix ^ (digits ++ [c]).length := by rw [List.length_append, Nat.pow_add]; simp

/-- The longest digits are those that are read. -/
theorem Longest.takeWhile_eq (h : Longest radix most digits rest value) :
    ((digits ++ rest).take most).takeWhile (isDigitOf radix) = digits := by
  obtain ⟨-, all, -⟩ := denotes_iff.1 h.denotes
  rw [List.take_append, List.take_of_length_le h.atMost, List.takeWhile_append_of_pos all]
  rcases h.longest with full | stop
  · rw [full, Nat.sub_self, List.take_zero, List.takeWhile_nil, List.append_nil]
  · rcases rest with _ | ⟨c, rest⟩
    · simp
    · rcases most - digits.length with _ | more
      · simp
      · rw [List.take_succ_cons, List.takeWhile_cons_of_neg (by simpa [nextIs] using stop),
          List.append_nil]

theorem append_drop_takeWhile (radix most : Nat) (text : List Char) :
    (text.take most).takeWhile (isDigitOf radix) ++
      text.drop ((text.take most).takeWhile (isDigitOf radix)).length = text :=
  List.prefix_iff_eq_append.1 ((List.takeWhile_prefix _).trans (List.take_prefix most text))

/-- The digits that are read are the longest. -/
theorem longest_takeWhile (eq : (text.take most).takeWhile (isDigitOf radix) = digits)
    (ne : digits ≠ []) :
    Longest radix most digits (text.drop digits.length) (valueOf radix digits) := by
  have all : ∀ c ∈ digits, isDigitOf radix c := by
    rw [← eq]
    exact fun c mem => List.mem_takeWhile_imp mem
  have front : digits <+: text.take most := eq ▸ List.takeWhile_prefix _
  have atMost := front.length_le.trans (List.length_take_le most text)
  refine ⟨denotes_iff.2 ⟨ne, all, rfl⟩, atMost, ?_⟩
  rcases next : text.drop digits.length with _ | ⟨c, later⟩
  · exact .inr rfl
  rw [or_iff_not_imp_left, nextIs, Bool.eq_false_iff]
  intro less digit
  -- one more digit would have been read
  have split : text = digits ++ c :: later := by
    rw [← next, ← eq, append_drop_takeWhile]
  have more : most - digits.length = most - digits.length - 1 + 1 := by omega
  rw [split, List.take_append, List.take_of_length_le atMost, more, List.take_succ_cons,
    List.takeWhile_append_of_pos all, List.takeWhile_cons_of_pos digit] at eq
  exact List.cons_ne_nil _ _ (List.append_right_eq_self.1 eq)

/-! ## Escapes of one character -/

/-- A backslash protects a character or names a control character. -/
theorem mem_simple_iff {mode : EscapeMode} {name c : Char} : (name, c) ∈ simple mode ↔
    protects mode name = true ∧ c = name ∨
      protects mode name = false ∧ mode ≠ .single ∧ controls.lookup name = some c := by
  constructor
  · have all : ∀ entry ∈ simple mode, protects mode entry.1 = true ∧ entry.2 = entry.1 ∨
        protects mode entry.1 = false ∧ mode ≠ .single ∧
          controls.lookup entry.1 = some entry.2 := by
      cases mode <;> decide
    exact all (name, c)
  · rintro (⟨own, rfl⟩ | ⟨-, double, control⟩)
    · cases mode <;> simp only [protects, Bool.or_eq_true, beq_iff_eq, or_assoc] at own
      · rcases own with rfl | rfl <;> decide
      · rcases own with rfl | rfl | rfl <;> decide
      · rcases own with rfl | rfl | rfl | rfl <;> decide
    · have mem : (name, c) ∈ controls := by
        obtain ⟨_, _, eq, -⟩ := List.lookup_eq_some_iff.1 control
        simp [eq]
      have listed : ∀ entry ∈ controls, entry ∈ simpleInterpolated := by decide
      cases mode with
      | single => exact absurd rfl double
      | double => exact listed _ mem
      | backquote => exact List.mem_cons_of_mem _ (listed _ mem)

/-- One that begins an escape of several characters is not simple. -/
theorem not_mem_simple {mode : EscapeMode} {name : Char}
    (h : name = 'x' ∨ name = 'u' ∨ isDigitOf 8 name = true) (c : Char) :
    (name, c) ∉ simple mode := by
  have all : ∀ entry ∈ simple mode, ¬(entry.1 = 'x' ∨ entry.1 = 'u' ∨ isDigitOf 8 entry.1) := by
    cases mode <;> decide
  exact fun mem => all (name, c) mem h

/-- The short escapes are read first. -/
theorem read?_of_mem_simple {name c : Char} (h : (name, c) ∈ simple rules.mode) :
    read? rules (name :: rest) = some (.char c, 1) := by
  rw [read?]
  rcases mem_simple_iff.1 h with ⟨own, rfl⟩ | ⟨notOwn, double, control⟩
  · rw [if_pos own]
  · rw [if_neg (Bool.eq_false_iff.1 notOwn), if_neg double, control]

/-- What is read where no simple escape begins. -/
theorem read?_of_not_mem_simple {name : Char} (h : ∀ c, (name, c) ∉ simple rules.mode)
    (mode : rules.mode ≠ .single) : read? rules (name :: rest) =
      if name = 'x' then
        let digits := (rest.take 2).takeWhile (isDigitOf 16)
        if digits.isEmpty then none
        else some (.byte (.ofNat (valueOf 16 digits)), digits.length + 1)
      else if name = 'u' then
        if rules.codePoints then (readBraced? rest).map fun (e, n) => (e, n + 1) else none
      else
        let digits := ((name :: rest).take 3).takeWhile (isDigitOf 8)
        if digits.isEmpty then none
        else some (.byte (.ofNat (valueOf 8 digits)), digits.length) := by
  have notOwn : protects rules.mode name = false :=
    Bool.eq_false_iff.2 fun own => h name (mem_simple_iff.2 (.inl ⟨own, rfl⟩))
  have noControl : controls.lookup name = none :=
    Option.eq_none_iff_forall_ne_some.2 fun c control =>
      h c (mem_simple_iff.2 (.inr ⟨notOwn, mode, control⟩))
  rw [read?, notOwn, noControl, if_neg Bool.false_ne_true, if_neg mode]

/-! ## Reading by the grammar -/

/-- What is emitted for an escape. -/
def emitted (encoding : Encoding) (e : Escape) : Emitted := ⟨e.bytes encoding, true, e.isInvalid⟩

/-- A code point of a character gives the octets of that character. -/
theorem emitted_codePoint (encoding : Encoding) (c : Char) :
    (Escape.codePoint c.toNat).emitted encoding = .escape (Utf8.encode c) := by
  have valid : c.toNat.isValidChar := c.valid
  simp [emitted, bytes, isInvalid, valid, Char.ofNat_toNat, Emitted.escape]

/-- A code point of no character gives a question mark. -/
theorem emitted_noCharacter (encoding : Encoding)
    (none : 0xD800 ≤ value ∧ value ≤ 0xDFFF ∨ 0x10FFFF < value) :
    (Escape.codePoint value).emitted encoding = .questionMark := by
  have invalid : ¬value.isValidChar := by
    unfold Nat.isValidChar
    omega
  simp [emitted, bytes, isInvalid, invalid, Emitted.questionMark]

/-- Braces with one to six digits in them are read. -/
theorem readBraced?_eq (atMost : digits.length ≤ 6) (denotes : Denotes 16 digits value) :
    readBraced? ('\x7b' :: (digits ++ '\x7d' :: rest)) =
      some (.codePoint value, digits.length + 2) := by
  have longest : Longest 16 6 digits ('\x7d' :: rest) value := ⟨denotes, atMost, .inr rfl⟩
  obtain ⟨ne, -, rfl⟩ := denotes_iff.1 denotes
  simp [readBraced?, longest.takeWhile_eq, ne]

/-- An escape that begins is read. -/
theorem Begins.read? {e : Emitted} (h : Begins rules text e rest) :
    ∃ own length, Escape.read? rules text = some (own, length) ∧
      own.emitted rules.encoding = e ∧ text.drop length = rest := by
  cases h with
  | @simple name c rest h => exact ⟨.char c, 1, read?_of_mem_simple h, rfl, rfl⟩
  | @hexadecimal digits rest b mode h =>
    obtain ⟨ne, -, value⟩ := denotes_iff.1 h.denotes
    refine ⟨.byte b, digits.length + 1, ?_, rfl, by simp⟩
    rw [read?_of_not_mem_simple (not_mem_simple (.inl rfl)) mode, if_pos rfl]
    simp [h.takeWhile_eq, ne, ← value]
  | @octal digits rest value b mode h wraps =>
    obtain ⟨ne, all, eq⟩ := denotes_iff.1 h.denotes
    obtain ⟨c, later, rfl⟩ := List.exists_cons_of_ne_nil ne
    -- what begins with a digit begins no other escape
    have digit := all c List.mem_cons_self
    have noLetter : c ≠ 'x' ∧ c ≠ 'u' := by
      constructor <;> rintro rfl <;> cases digit
    have byte : b = .ofNat value := by
      rw [← UInt8.toNat_inj, wraps, UInt8.toNat_ofNat']
    refine ⟨.byte b, (c :: later).length, ?_, rfl, by simp⟩
    rw [List.cons_append, read?_of_not_mem_simple (not_mem_simple (.inr (.inr digit))) mode,
      if_neg noLetter.1, if_neg noLetter.2, ← List.cons_append, h.takeWhile_eq, byte, eq]
    rfl
  | @codePoint digits rest c mode enabled atMost denotes =>
    refine ⟨.codePoint c.toNat, digits.length + 3, ?_, emitted_codePoint _ c, by simp⟩
    rw [read?_of_not_mem_simple (not_mem_simple (.inr (.inl rfl))) mode, if_neg (by decide),
      if_pos rfl, if_pos enabled, readBraced?_eq atMost denotes]
    rfl
  | @noCharacter digits rest value mode enabled atMost denotes none =>
    refine ⟨.codePoint value, digits.length + 3, ?_, emitted_noCharacter _ none, by simp⟩
    rw [read?_of_not_mem_simple (not_mem_simple (.inr (.inl rfl))) mode, if_neg (by decide),
      if_pos rfl, if_pos enabled, readBraced?_eq atMost denotes]
    rfl

/-- Braces that are read have one to six digits in them. -/
theorem digits_of_readBraced? {e : Escape} {length : Nat}
    (h : readBraced? text = some (e, length)) : ∃ digits rest value,
      text = '\x7b' :: (digits ++ '\x7d' :: rest) ∧ Denotes 16 digits value ∧
        digits.length ≤ 6 ∧ e = .codePoint value ∧ length = digits.length + 2 := by
  unfold readBraced? at h
  split at h
  · rename_i inner
    dsimp only at h
    split at h
    · rename_i closed
      obtain ⟨rfl, rfl⟩ := Prod.mk.inj (Option.some.inj h)
      rw [Bool.and_eq_true, Bool.not_eq_true', List.isEmpty_eq_false_iff, beq_iff_eq] at closed
      have longest : Longest 16 6 _ (inner.drop _) _ := longest_takeWhile rfl closed.1
      obtain ⟨rest, after⟩ := List.head?_eq_some_iff.1 closed.2
      refine ⟨_, rest, _, ?_, longest.denotes, longest.atMost, rfl, rfl⟩
      rw [← after]
      exact congrArg _ (append_drop_takeWhile 16 6 inner).symm
    · cases h
  · cases h

/-- Two digits denote a byte. -/
theorem begins_hexadecimal (mode : rules.mode ≠ .single)
    (eq : (rest.take 2).takeWhile (isDigitOf 16) = digits) (ne : digits ≠ []) :
    Begins rules ('x' :: rest) (.escape [.ofNat (valueOf 16 digits)])
      (rest.drop digits.length) := by
  have longest := longest_takeWhile eq ne
  -- so nothing wraps around
  have small : valueOf 16 digits < 2 ^ 8 :=
    Nat.lt_of_lt_of_le longest.denotes.lt (Nat.pow_le_pow_right (by decide) longest.atMost)
  rw [← UInt8.toNat_ofNat_of_lt' small] at longest
  have begins := Begins.hexadecimal mode longest
  rwa [← eq, append_drop_takeWhile, eq] at begins

/-- Up to three octal digits are one octet. -/
theorem begins_octal (mode : rules.mode ≠ .single)
    (eq : (text.take 3).takeWhile (isDigitOf 8) = digits) (ne : digits ≠ []) :
    Begins rules text (.escape [.ofNat (valueOf 8 digits)]) (text.drop digits.length) := by
  have begins := Begins.octal mode (longest_takeWhile eq ne) UInt8.toNat_ofNat'
  rwa [← eq, append_drop_takeWhile, eq] at begins

/-- A braced escape of at most six digits is a code point. -/
theorem begins_braced (mode : rules.mode ≠ .single) (enabled : rules.codePoints = true)
    (atMost : digits.length ≤ 6) (denotes : Denotes 16 digits value) :
    Begins rules ('u' :: '\x7b' :: (digits ++ '\x7d' :: rest))
      ((Escape.codePoint value).emitted rules.encoding) rest := by
  by_cases none : 0xD800 ≤ value ∧ value ≤ 0xDFFF ∨ 0x10FFFF < value
  · rw [emitted_noCharacter _ none]
    exact .noCharacter mode enabled atMost denotes none
  · have valid : value.isValidChar := by
      unfold Nat.isValidChar
      omega
    obtain ⟨c, rfl⟩ : ∃ c : Char, c.toNat = value := ⟨.ofNatAux value valid, rfl⟩
    rw [emitted_codePoint]
    exact .codePoint mode enabled atMost denotes

/-- An escape that is read begins. -/
theorem begins_of_read? {e : Escape} {length : Nat} (h : read? rules text = some (e, length)) :
    Begins rules text (e.emitted rules.encoding) (text.drop length) := by
  rcases text with _ | ⟨name, rest⟩
  · cases h
  by_cases simple : ∃ c, (name, c) ∈ simple rules.mode
  · obtain ⟨c, mem⟩ := simple
    rw [read?_of_mem_simple mem] at h
    obtain ⟨rfl, rfl⟩ := Prod.mk.inj (Option.some.inj h)
    exact .simple mem
  rw [not_exists] at simple
  by_cases mode : rules.mode = .single
  · -- single quotes know no others
    have notOwn : ¬protects rules.mode name = true := fun own =>
      simple name (mem_simple_iff.2 (.inl ⟨own, rfl⟩))
    rw [read?, if_neg notOwn, if_pos mode] at h
    cases h
  rw [read?_of_not_mem_simple simple mode] at h
  dsimp only at h
  split at h
  · rename_i isX
    split at h
    · cases h
    · rename_i ne
      obtain ⟨rfl, rfl⟩ := Prod.mk.inj (Option.some.inj h)
      rw [isX]
      exact begins_hexadecimal mode rfl (by simpa using ne)
  split at h
  · rename_i isU
    split at h
    · rename_i enabled
      obtain ⟨⟨inner, n⟩, braced, eq⟩ := Option.map_eq_some_iff.1 h
      obtain ⟨rfl, rfl⟩ := Prod.mk.inj eq
      obtain ⟨digits, after, value, rfl, denotes, atMost, rfl, rfl⟩ := digits_of_readBraced? braced
      have begins : Begins rules ('u' :: '\x7b' :: (digits ++ '\x7d' :: after)) _ after :=
        begins_braced mode enabled atMost denotes
      rw [isU]
      simpa using begins
    · cases h
  · split at h
    · cases h
    · rename_i ne
      obtain ⟨rfl, rfl⟩ := Prod.mk.inj (Option.some.inj h)
      exact begins_octal mode rfl (by simpa using ne)

/-- Where nothing is read no escape begins. -/
theorem not_begins_of_read? (h : read? rules text = none) (e : Emitted) (after : List Char) :
    ¬Begins rules text e after := by
  intro begins
  obtain ⟨own, length, read, -⟩ := begins.read?
  rw [read] at h
  cases h

end Escape

/-! ## Decoding a body -/

variable {rules : EscapeRules}

/-- What is emitted for the pieces of a body. -/
def BodyPiece.emitted (encoding : Encoding) (pieces : List BodyPiece) : Emitted :=
  ⟨pieces.flatMap (·.bytes encoding), pieces.any isEscape, pieces.any isInvalid⟩

theorem BodyPiece.emitted_last (encoding : Encoding) :
    BodyPiece.emitted encoding [.plain '\\'] = .char encoding '\\' :=
  congrArg (Emitted.mk · false false) (List.append_nil _)

/-- The pieces are what the grammar says. -/
theorem decodes_listAfter (taken : Nat) (text : List Char) : Decodes rules (text.drop taken)
    (BodyPiece.emitted rules.encoding (BodyPiece.listAfter rules taken text)) := by
  fun_induction BodyPiece.listAfter rules taken text with
  | case1 taken =>
    rw [List.drop_nil]
    exact .nil
  | case2 taken c rest ih => exact ih
  | case3 rest e length read ih => exact .escape (Escape.begins_of_read? read) ih
  | case4 read =>
    rw [BodyPiece.emitted_last]
    exact .last
  | case5 c rest read ih => exact .kept (Escape.not_begins_of_read? read) ih
  | case6 c rest plain ih => exact .plain plain ih

/-- Pieces after some characters are those of the rest. -/
theorem BodyPiece.listAfter_eq_list_drop (taken : Nat) (text : List Char) :
    listAfter rules taken text = list rules (text.drop taken) := by
  induction text generalizing taken with
  | nil => simp [list, listAfter]
  | cons c rest ih =>
    cases taken with
    | zero => rfl
    | succ taken => exact ih taken

/-- The grammar says nothing else. -/
theorem Decodes.eq {body : List Char} {emitted : Emitted} (h : Decodes rules body emitted) :
    emitted = BodyPiece.emitted rules.encoding (BodyPiece.list rules body) := by
  induction h with
  | nil => rfl
  | escape begins goesOn ih =>
    obtain ⟨own, length, read, rfl, rfl⟩ := begins.read?
    rw [BodyPiece.list, BodyPiece.listAfter_backslash, read, ih]
    dsimp only
    rw [BodyPiece.listAfter_eq_list_drop]
    rfl
  | @kept c rest later none goesOn ih =>
    have read : Escape.read? rules (c :: rest) = .none := by
      rcases read : Escape.read? rules (c :: rest) with _ | ⟨e, length⟩
      · rfl
      · exact absurd (Escape.begins_of_read? read) (none _ _)
    rw [BodyPiece.list, BodyPiece.listAfter_backslash, read, ih]
    rfl
  | last => exact (BodyPiece.emitted_last _).symm
  | plain ne goesOn ih =>
    rw [BodyPiece.list, BodyPiece.listAfter_plain _ ne, ih]
    rfl

theorem Emitted.isValue_iff {emitted : Emitted} {text : Text} :
    emitted.IsValue rules text ↔ text = rules.textOf emitted.bytes := by
  unfold EscapeRules.textOf
  constructor
  · rintro (h | ⟨binary, h⟩)
    · rcases h with binary | h
      · rw [if_pos binary]
      · rw [h]
        exact (ite_self _).symm
    · rw [if_neg (Bool.eq_false_iff.1 binary), h]
  · rintro rfl
    split
    · rename_i binary
      exact .bytes (.inl binary)
    · rename_i binary
      split
      · rename_i h
        exact .chars (Bool.eq_false_iff.2 binary) h
      · rename_i h
        exact .bytes (.inr h)

/-- **Decoding follows the grammar.** A body decodes in just one way. It is its own value just if it
is not binary and nothing is rewritten. If it is not, the value is what is emitted, as text or as
bytes, and is marked just if an escape names no character. -/
theorem unescape_decodes (rules : EscapeRules) (body : List Char) :
    ∃ emitted, (∀ other, Decodes rules body other ↔ other = emitted) ∧
      (unescape rules body = .verbatim ↔ rules.binary = false ∧ emitted.rewritten = false) ∧
      ∀ text invalid, unescape rules body = .rebuilt text invalid ↔
        (rules.binary = true ∨ emitted.rewritten = true) ∧
          emitted.IsValue rules text ∧ invalid = emitted.invalid := by
  -- the pieces are the decoding
  refine ⟨BodyPiece.emitted rules.encoding (BodyPiece.list rules body),
    fun other => ⟨Decodes.eq, ?_⟩, ?_, fun text invalid => ?_⟩
  · rintro rfl
    exact decodes_listAfter 0 body
  · simp [unescape_eq, BodyPiece.emitted]
  · rw [unescape_eq, Emitted.isValue_iff, ← Bool.or_eq_true]
    split
    · rename_i built
      constructor
      · intro h
        obtain ⟨rfl, rfl⟩ := Unescaped.rebuilt.inj h
        exact ⟨built, rfl, rfl⟩
      · rintro ⟨-, rfl, rfl⟩
        rfl
    · rename_i notBuilt
      exact ⟨nofun, fun h => absurd h.1 notBuilt⟩

-- What begins no escape is copied with the character after it, and a backslash may end a body.
example : unescape ⟨.double, .utf8, true, false⟩ "\\q\\x4Z\\401\\".toList =
    .rebuilt (.ofChars "\\q\x04Z\x01\\".toList) false := rfl

end PhpFrontEnd
