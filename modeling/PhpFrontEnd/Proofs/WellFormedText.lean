import Mathlib.Data.List.Forall2
import Mathlib.Data.Set.List
import PhpFrontEnd.Proofs.Encoding

/-!
# Texts that go through their octets

The exact reading of octets refuses just what the lossy reading has to replace, and where it refuses
nothing the two readings are one and the octets can be had back from the text.

What is refused is told without reading anything: the Unicode standard lists which octets may stand
next to each other (`Utf8.sequences`), and octets are well formed if they are sequences of this list
put one after the other (`Utf8.WellFormed`). Every row of the list is the octets of some characters
and every character has a row (`Utf8.sequence_iff`); so to be well formed is to be the octets
of a text (`Utf8.wellFormed_iff_exists_text`), and these are read.
-/

namespace PhpFrontEnd

namespace Utf8

/-! ## Well-formed octets -/

/-- The well-formed sequences of the Unicode standard: for each row of its table the range of every
octet. Overlong forms, surrogates and values above U+10FFFF are in no row. -/
def sequences : List (List (UInt8 × UInt8)) := [
  [(0x00, 0x7F)],
  [(0xC2, 0xDF), (0x80, 0xBF)],
  [(0xE0, 0xE0), (0xA0, 0xBF), (0x80, 0xBF)],
  [(0xE1, 0xEC), (0x80, 0xBF), (0x80, 0xBF)],
  [(0xED, 0xED), (0x80, 0x9F), (0x80, 0xBF)],
  [(0xEE, 0xEF), (0x80, 0xBF), (0x80, 0xBF)],
  [(0xF0, 0xF0), (0x90, 0xBF), (0x80, 0xBF), (0x80, 0xBF)],
  [(0xF1, 0xF3), (0x80, 0xBF), (0x80, 0xBF), (0x80, 0xBF)],
  [(0xF4, 0xF4), (0x80, 0x8F), (0x80, 0xBF), (0x80, 0xBF)]]

/-- An octet is in a range. -/
def Within (range : UInt8 × UInt8) (b : UInt8) : Prop := range.1 ≤ b ∧ b ≤ range.2

/-- Octets that are one sequence of the table. -/
def Sequence (octets : List UInt8) : Prop :=
  ∃ row ∈ sequences, List.Forall₂ Within row octets

/-- Octets that are sequences of the table, one after the other. -/
inductive WellFormed : List UInt8 → Prop where
  | nil : WellFormed []
  | append {octets rest : List UInt8} : Sequence octets → WellFormed rest →
      WellFormed (octets ++ rest)

/-- A range of octets is one of numbers. -/
theorem within_iff {low high b : UInt8} :
    Within (low, high) b ↔ low.toNat ≤ b.toNat ∧ b.toNat ≤ high.toNat := Iff.rfl

/-! ### A sequence is a character -/

theorem Within.isTail {b : UInt8} (h : Within (0x80, 0xBF) b) : isTail b := by
  simpa [Utf8.isTail, Within] using h

/-- In the first row of the table are the characters of one octet. -/
theorem exists_encode_one {b : UInt8} (h : Within (0x00, 0x7F) b) : ∃ c, encode c = [b] := by
  have ascii : b.toNat < 0x80 := Nat.lt_succ_of_le h.2
  have read := readAt_one ascii []
  rw [UInt8.ofNat_toNat] at read
  exact ⟨_, encode_readAt read⟩

/-- Octets that the table of first octets allows are those of a character. -/
theorem exists_encode_of_owed {b second : UInt8} {tails : List UInt8} {bits more : Nat}
    (owes : ∃ owed, Owed.of? b = some owed ∧ owed.bits = bits ∧ owed.more = more ∧
      owed.low.toNat ≤ second.toNat ∧ second.toNat ≤ owed.high.toNat)
    (length : tails.length = more) (all : ∀ t ∈ tails, isTail t) :
    ∃ c, encode c = b :: second :: tails := by
  have eq := encode_readAt (readAt_sequence owes length all [])
  rw [List.append_nil, List.take_length] at eq
  exact ⟨_, eq⟩

/-- In the second row are those of two. -/
theorem exists_encode_two {b second : UInt8} (first : Within (0xC2, 0xDF) b)
    (tail : Within (0x80, 0xBF) second) : ∃ c, encode c = [b, second] := by
  simp only [within_iff, UInt8.reduceToNat] at first
  have owes := @Owed.exists_of? b second (b.toNat - 0xC0) 0 tail (by omega)
  exact exists_encode_of_owed owes rfl nofun

/-- Three octets are a character, unless they are too long for it or a surrogate. -/
theorem exists_encode_three {b second third : UInt8} (first : Within (0xE0, 0xEF) b)
    (tail : Within (0x80, 0xBF) second) (overlong : b.toNat = 0xE0 → 0xA0 ≤ second.toNat)
    (surrogate : b.toNat = 0xED → second.toNat ≤ 0x9F) (last : Within (0x80, 0xBF) third) :
    ∃ c, encode c = [b, second, third] := by
  simp only [within_iff, UInt8.reduceToNat] at first
  have owes := @Owed.exists_of? b second (b.toNat - 0xE0) 1 tail (by omega)
  exact exists_encode_of_owed owes rfl (List.forall_mem_singleton.2 last.isTail)

/-- Four octets are a character, unless they are too long for it or it would be too large. -/
theorem exists_encode_four {b second third fourth : UInt8} (first : Within (0xF0, 0xF4) b)
    (tail : Within (0x80, 0xBF) second) (overlong : b.toNat = 0xF0 → 0x90 ≤ second.toNat)
    (large : b.toNat = 0xF4 → second.toNat ≤ 0x8F) (next : Within (0x80, 0xBF) third)
    (last : Within (0x80, 0xBF) fourth) : ∃ c, encode c = [b, second, third, fourth] := by
  simp only [within_iff, UInt8.reduceToNat] at first
  have owes := @Owed.exists_of? b second (b.toNat - 0xF0) 2 tail (by omega)
  refine exists_encode_of_owed owes rfl (List.forall_mem_cons.2 ⟨next.isTail, ?_⟩)
  exact List.forall_mem_singleton.2 last.isTail

/-- Each sequence of the table is a character. -/
theorem exists_encode_of_sequence {octets : List UInt8} (h : Sequence octets) :
    ∃ c, encode c = octets := by
  obtain ⟨row, mem, fits⟩ := h
  simp only [sequences, List.mem_cons, List.not_mem_nil, or_false] at mem
  rcases mem with rfl | rfl | rfl | rfl | rfl | rfl | rfl | rfl | rfl
  · obtain _ | ⟨first, _ | _⟩ := fits
    exact exists_encode_one first
  · obtain _ | ⟨first, _ | ⟨second, _ | _⟩⟩ := fits
    exact exists_encode_two first second
  -- four rows of three octets, then three of four
  iterate 4
    · obtain _ | ⟨first, _ | ⟨second, _ | ⟨third, _ | _⟩⟩⟩ := fits
      simp only [within_iff, UInt8.reduceToNat] at first second
      refine exists_encode_three ?_ ?_ (by omega) (by omega) third
      all_goals simp only [within_iff, UInt8.reduceToNat]; omega
  iterate 3
    · obtain _ | ⟨first, _ | ⟨second, _ | ⟨third, _ | ⟨fourth, _ | _⟩⟩⟩⟩ := fits
      simp only [within_iff, UInt8.reduceToNat] at first second
      refine exists_encode_four ?_ ?_ (by omega) (by omega) third fourth
      all_goals simp only [within_iff, UInt8.reduceToNat]; omega

/-! ### A character is a sequence -/

theorem within_ofNat {range : UInt8 × UInt8} {n : Nat} (h : range.1.toNat ≤ n ∧ n ≤ range.2.toNat) :
    Within range (.ofNat n) := by
  have small := range.2.toNat_lt
  rw [within_iff, toNat_ofNat_octet (by omega)]
  exact h

theorem within_tail (n : Nat) : Within (0x80, 0xBF) (.ofNat (0x80 + n % 0x40)) :=
  within_ofNat (by simp only [UInt8.reduceToNat]; omega)

theorem sequence_three {range second : UInt8 × UInt8} {m n k : Nat}
    (mem : [range, second, (0x80, 0xBF)] ∈ sequences)
    (hm : range.1.toNat ≤ m ∧ m ≤ range.2.toNat) (hn : second.1.toNat ≤ n ∧ n ≤ second.2.toNat) :
    Sequence [.ofNat m, .ofNat n, .ofNat (0x80 + k % 0x40)] :=
  ⟨_, mem, .cons (within_ofNat hm) (.cons (within_ofNat hn) (.cons (within_tail k) .nil))⟩

theorem sequence_four {range second : UInt8 × UInt8} {m n k l : Nat}
    (mem : [range, second, (0x80, 0xBF), (0x80, 0xBF)] ∈ sequences)
    (hm : range.1.toNat ≤ m ∧ m ≤ range.2.toNat) (hn : second.1.toNat ≤ n ∧ n ≤ second.2.toNat) :
    Sequence [.ofNat m, .ofNat n, .ofNat (0x80 + k % 0x40), .ofNat (0x80 + l % 0x40)] :=
  ⟨_, mem, .cons (within_ofNat hm) (.cons (within_ofNat hn)
    (.cons (within_tail k) (.cons (within_tail l) .nil)))⟩

/-- The octets of a character are a row of the table; its first bits say which. -/
theorem sequence_encode (c : Char) : Sequence (encode c) := by
  have valid : c.toNat < 0xD800 ∨ 0xDFFF < c.toNat ∧ c.toNat < 0x110000 := c.valid
  rw [encode]
  split
  · refine ⟨[(0x00, 0x7F)], by decide, .cons (within_ofNat ?_) .nil⟩
    simp only [UInt8.reduceToNat]
    omega
  split
  · refine ⟨[(0xC2, 0xDF), (0x80, 0xBF)], by decide,
      .cons (within_ofNat ?_) (.cons (within_tail _) .nil)⟩
    simp only [UInt8.reduceToNat]
    omega
  split
  · obtain bits | bits | bits | bits : c.toNat / 0x1000 = 0 ∨
        (1 ≤ c.toNat / 0x1000 ∧ c.toNat / 0x1000 ≤ 0xC) ∨ c.toNat / 0x1000 = 0xD ∨
        0xE ≤ c.toNat / 0x1000 := by omega
    · refine sequence_three
        (by decide : [(0xE0, 0xE0), (0xA0, 0xBF), (0x80, 0xBF)] ∈ sequences) ?_ ?_
      all_goals simp only [UInt8.reduceToNat]; omega
    · refine sequence_three
        (by decide : [(0xE1, 0xEC), (0x80, 0xBF), (0x80, 0xBF)] ∈ sequences) ?_ ?_
      all_goals simp only [UInt8.reduceToNat]; omega
    · refine sequence_three
        (by decide : [(0xED, 0xED), (0x80, 0x9F), (0x80, 0xBF)] ∈ sequences) ?_ ?_
      all_goals simp only [UInt8.reduceToNat]; omega
    · refine sequence_three
        (by decide : [(0xEE, 0xEF), (0x80, 0xBF), (0x80, 0xBF)] ∈ sequences) ?_ ?_
      all_goals simp only [UInt8.reduceToNat]; omega
  · obtain bits | bits | bits : c.toNat / 0x40000 = 0 ∨
        (1 ≤ c.toNat / 0x40000 ∧ c.toNat / 0x40000 ≤ 3) ∨ c.toNat / 0x40000 = 4 := by omega
    · refine sequence_four
        (by decide : [(0xF0, 0xF0), (0x90, 0xBF), (0x80, 0xBF), (0x80, 0xBF)] ∈ sequences) ?_ ?_
      all_goals simp only [UInt8.reduceToNat]; omega
    · refine sequence_four
        (by decide : [(0xF1, 0xF3), (0x80, 0xBF), (0x80, 0xBF), (0x80, 0xBF)] ∈ sequences) ?_ ?_
      all_goals simp only [UInt8.reduceToNat]; omega
    · refine sequence_four
        (by decide : [(0xF4, 0xF4), (0x80, 0x8F), (0x80, 0xBF), (0x80, 0xBF)] ∈ sequences) ?_ ?_
      all_goals simp only [UInt8.reduceToNat]; omega

/-- A sequence of the table is one character. -/
theorem sequence_iff {octets : List UInt8} : Sequence octets ↔ ∃ c, encode c = octets := by
  constructor
  · exact exists_encode_of_sequence
  · rintro ⟨c, rfl⟩
    exact sequence_encode c

/-! ### Well-formed octets are a text -/

/-- Well-formed octets are those that a text has. -/
theorem wellFormed_iff_exists_text {octets : List UInt8} :
    WellFormed octets ↔ ∃ text, encodeAll text = octets := by
  constructor
  · intro h
    induction h with
    | nil => exact ⟨[], rfl⟩
    | append sequence later ih =>
      obtain ⟨c, rfl⟩ := sequence_iff.1 sequence
      obtain ⟨text, rfl⟩ := ih
      exact ⟨c :: text, rfl⟩
  · rintro ⟨text, rfl⟩
    induction text with
    | nil => exact .nil
    | cons c text ih => exact .append (sequence_iff.2 ⟨c, rfl⟩) ih

/-! ## What is read, and what is refused -/

/-- Where nothing is refused nothing is replaced. -/
theorem decodeLossy_of_decode? {octets : List UInt8} {text : List Char}
    (h : decode? octets = some text) : decodeLossy octets = text := by
  rw [decodeLossy, decode?_eq_some.1 h, List.map_map]
  exact List.map_id' text

/-- Octets are refused if no text is written as them. -/
theorem decode?_eq_none {octets : List UInt8} :
    decode? octets = none ↔ ∀ text, encodeAll text ≠ octets := by
  constructor
  · rintro refused text rfl
    rw [decode?_encodeAll] at refused
    cases refused
  · intro noText
    rcases read : decode? octets with _ | text
    · rfl
    · exact absurd (encodeAll_of_decode? read) (noText text)

/-- Octets are refused if there is a part of them to replace. -/
theorem decode?_eq_none_iff_mem {octets : List UInt8} :
    decode? octets = none ↔ none ∈ units octets := by
  constructor
  · intro refused
    by_contra whole
    have characters : units octets ∈ Set.range (List.map some) := by
      rw [Set.range_list_map]
      intro unit mem
      exact Option.ne_none_iff_exists.1 fun eq => whole (eq ▸ mem)
    obtain ⟨text, eq⟩ := characters
    rw [decode?_eq_some.2 eq.symm] at refused
    cases refused
  · intro part
    rcases read : decode? octets with _ | text
    · rfl
    · rw [decode?_eq_some.1 read] at part
      obtain ⟨c, -, eq⟩ := List.mem_map.1 part
      cases eq

/-- Octets are refused if they are not well formed. -/
theorem decode?_eq_none_iff_not_wellFormed {octets : List UInt8} :
    decode? octets = none ↔ ¬WellFormed octets := by
  rw [decode?_eq_none, wellFormed_iff_exists_text, not_exists]

/-- Octets are refused if their lossy text is not written as them. -/
theorem decode?_eq_none_iff_encodeAll {octets : List UInt8} :
    decode? octets = none ↔ encodeAll (decodeLossy octets) ≠ octets := by
  constructor
  · intro refused
    exact decode?_eq_none.1 refused _
  · intro lost
    rcases read : decode? octets with _ | text
    · rfl
    · refine absurd ?_ lost
      rw [decodeLossy_of_decode? read, encodeAll_of_decode? read]

end Utf8

/-! ## Both encodings -/

namespace Encoding

variable {encoding : Encoding} {octets : List UInt8} {text : List Char}

/-- What is read exactly is also what is read with replacements. -/
theorem decode_of_decode? (h : encoding.decode? octets = some text) :
    encoding.decode octets = text := by
  cases encoding with
  | utf8 => exact Utf8.decodeLossy_of_decode? h
  | latin1 => exact Option.some.inj h

/-- **Texts go through their octets, and octets through their text.** Where octets are read exactly,
they are read lossily as the same text, and the characters of the text are written as these octets.
A text is read back exactly from the octets of its characters, if the encoding has octets for them.
In UTF-8 octets are refused exactly if the lossy reading would replace a part of them, which is if
they are not well formed, and exactly then its text is not written as the octets; in Latin-1 none
are refused. -/
theorem round_trips :
    (∀ (encoding : Encoding) (octets : List UInt8) (text : List Char),
      encoding.decode? octets = some text →
        encoding.decode octets = text ∧ encoding.encodeAll text = octets) ∧
    (∀ (encoding : Encoding) (text : List Char), encoding.Holds text →
      encoding.decode? (encoding.encodeAll text) = some text) ∧
    (∀ octets : List UInt8,
      (utf8.decode? octets = none ↔ none ∈ Utf8.units octets) ∧
      (utf8.decode? octets = none ↔ ¬Utf8.WellFormed octets) ∧
      (utf8.decode? octets = none ↔ utf8.encodeAll (utf8.decode octets) ≠ octets)) ∧
    ∀ octets : List UInt8, latin1.decode? octets ≠ none := by
  refine ⟨fun encoding octets text read => ?_, fun encoding text => decode?_encodeAll,
    fun octets => ?_, fun octets => Option.some_ne_none _⟩
  · exact ⟨decode_of_decode? read, encodeAll_of_decode? read⟩
  · exact ⟨Utf8.decode?_eq_none_iff_mem, Utf8.decode?_eq_none_iff_not_wellFormed,
      Utf8.decode?_eq_none_iff_encodeAll⟩

/-- One octet, a letter in Latin-1 and only the beginning of a character in UTF-8. -/
theorem round_trips_letter :
    latin1.decode? [0xE9] = some ['é'] ∧ latin1.encodeAll ['é'] = [0xE9] ∧
      latin1.Holds ['é'] ∧ latin1.decode? (latin1.encodeAll ['é']) = some ['é'] ∧
      utf8.decode? [0xE9] = none ∧ ¬Utf8.WellFormed [0xE9] := by
  obtain ⟨reads, written, refused, -⟩ := round_trips
  have read : latin1.decode? [0xE9] = some ['é'] := by decide
  have holds : latin1.Holds ['é'] := fun _ => List.forall_mem_singleton.2 (by decide)
  have part : utf8.decode? [0xE9] = none := by decide
  exact ⟨read, (reads _ _ _ read).2, holds, written _ _ holds, part, (refused _).2.1.1 part⟩

end Encoding

end PhpFrontEnd
