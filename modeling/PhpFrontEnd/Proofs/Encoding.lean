import PhpFrontEnd.Text.Encoding

/-!
# Reading what was written

Octets that an encoding gives a meaning to are those that the characters of that meaning are
written as. So two ways to spell a text never share an encoding, and what is decoded can be told
apart by its octets.
-/

namespace PhpFrontEnd

/-! ## UTF-8 -/

namespace Utf8

/-- A number that is a code point is the code point of its character. -/
theorem toNat_ofNat {n : Nat} (h : n.isValidChar) : (Char.ofNat n).toNat = n := by
  rw [Char.ofNat]
  rw [dif_pos h]
  rfl

/-- The octets of a code point, by its size. -/
theorem encode_ofNat {n : Nat} (h : n.isValidChar) : encode (.ofNat n) =
    if n < 0x80 then [.ofNat n]
    else if n < 0x800 then [.ofNat (0xC0 + n / 0x40), .ofNat (0x80 + n % 0x40)]
    else if n < 0x10000 then
      [.ofNat (0xE0 + n / 0x1000), .ofNat (0x80 + n / 0x40 % 0x40), .ofNat (0x80 + n % 0x40)]
    else
      [.ofNat (0xF0 + n / 0x40000), .ofNat (0x80 + n / 0x1000 % 0x40),
        .ofNat (0x80 + n / 0x40 % 0x40), .ofNat (0x80 + n % 0x40)] := by
  rw [encode]
  rw [toNat_ofNat h]

theorem ofNat_eq {n : Nat} {b : UInt8} (h : n = b.toNat) : UInt8.ofNat n = b := by
  rw [h, UInt8.ofNat_toNat]

/-- What the table says of first octets and of the octets that may follow them. -/
theorem Owed.of?_eq_some {b : UInt8} {owed : Owed} (h : of? b = some owed) :
    (owed.more = 0 ∧ b.toNat = 0xC0 + owed.bits ∧ 2 ≤ owed.bits ∧ owed.bits < 0x20 ∧
      0x80 ≤ owed.low.toNat ∧ owed.high.toNat ≤ 0xBF) ∨
    (owed.more = 1 ∧ b.toNat = 0xE0 + owed.bits ∧ owed.bits < 0x10 ∧
      0x80 ≤ owed.low.toNat ∧ owed.high.toNat ≤ 0xBF ∧ (owed.bits = 0 → 0xA0 ≤ owed.low.toNat) ∧
      (owed.bits = 0xD → owed.high.toNat ≤ 0x9F)) ∨
    (owed.more = 2 ∧ b.toNat = 0xF0 + owed.bits ∧ owed.bits ≤ 4 ∧
      0x80 ≤ owed.low.toNat ∧ owed.high.toNat ≤ 0xBF ∧ (owed.bits = 0 → 0x90 ≤ owed.low.toNat) ∧
      (owed.bits = 4 → owed.high.toNat ≤ 0x8F)) := by
  unfold of? at h
  simp only [UInt8.le_iff_toNat_le, ← UInt8.toNat_inj, UInt8.reduceToNat] at h
  repeat' split at h
  all_goals first | contradiction | obtain rfl := Option.some.inj h
  all_goals dsimp only [UInt8.reduceToNat]; omega

/-- The octets that continue a character, as numbers. -/
theorem isTail_toNat {b : UInt8} (h : isTail b) : 0x80 ≤ b.toNat ∧ b.toNat ≤ 0xBF := by
  simpa [isTail, UInt8.le_iff_toNat_le] using h

/-- The octets after the second, as many as are owed, when all of them are tails. -/
theorem takeWhile_isTail_eq {rest : List UInt8} {more : Nat}
    (h : ((rest.take more).takeWhile isTail).length = more) :
    (rest.take more).takeWhile isTail = rest.take more ∧ (rest.take more).length = more ∧
      ∀ b ∈ rest.take more, 0x80 ≤ b.toNat ∧ b.toNat ≤ 0xBF := by
  have le : (rest.take more).length ≤ more := List.length_take_le more rest
  have all := (List.takeWhile_prefix isTail).eq_of_length_le (Nat.le_trans le (Nat.le_of_eq h.symm))
  refine ⟨all, all ▸ h, fun b mem => isTail_toNat ?_⟩
  rw [← all] at mem
  exact List.all_eq_true.1 List.all_takeWhile b mem

/-- A character that was read is written as the octets that it was read from. -/
theorem encode_readAt {b : UInt8} {rest : List UInt8} {c : Char} {passed : Nat}
    (h : readAt b rest = (some c, passed)) : encode c = b :: rest.take passed := by
  have small := b.toNat_lt
  unfold readAt at h
  split at h
  · rename_i ascii
    rw [UInt8.lt_iff_toNat_lt] at ascii
    simp only [Prod.mk.injEq, Option.some.injEq] at h
    obtain ⟨rfl, rfl⟩ := h
    dsimp only [UInt8.reduceToNat] at ascii
    rw [encode_ofNat (.inl (by omega)), if_pos ascii, UInt8.ofNat_toNat]
    rfl
  split at h
  case h_2 => cases h
  rename_i owed second rest owes
  split at h
  case isFalse => cases h
  rename_i range
  simp only [UInt8.le_iff_toNat_le] at range
  dsimp only at h
  split at h
  case isFalse => cases h
  rename_i full
  simp only [Prod.mk.injEq, Option.some.injEq] at h
  obtain ⟨rfl, rfl⟩ := h
  obtain ⟨all, length, tails⟩ := takeWhile_isTail_eq full
  rw [all, List.take_succ_cons]
  -- the octets are two, three or four, and their bits are put together and taken apart again
  rcases Owed.of?_eq_some owes with
    ⟨more, first, bounds⟩ | ⟨more, first, bounds⟩ | ⟨more, first, bounds⟩
  · rw [more, List.take_zero]
    simp only [addTails, List.foldl_cons, List.foldl_nil]
    rw [encode_ofNat (.inl (by omega)), if_neg (by omega), if_pos (by omega),
      @ofNat_eq _ b (by omega), @ofNat_eq _ second (by omega)]
  · rw [more] at length tails ⊢
    obtain ⟨third, eq⟩ := List.length_eq_one_iff.1 length
    rw [eq] at tails ⊢
    have third_range := tails third List.mem_cons_self
    simp only [addTails, List.foldl_cons, List.foldl_nil]
    rw [encode_ofNat (by unfold Nat.isValidChar; omega), if_neg (by omega), if_neg (by omega),
      if_pos (by omega), @ofNat_eq _ b (by omega), @ofNat_eq _ second (by omega),
      @ofNat_eq _ third (by omega)]
  · rw [more] at length tails ⊢
    obtain ⟨third, others, eq⟩ := List.exists_cons_of_length_eq_add_one length
    rw [eq, List.length_cons] at length
    obtain ⟨fourth, rfl⟩ := List.length_eq_one_iff.1 (Nat.succ.inj length)
    rw [eq] at tails ⊢
    have third_range := tails third List.mem_cons_self
    have fourth_range := tails fourth (List.mem_cons_of_mem _ List.mem_cons_self)
    simp only [addTails, List.foldl_cons, List.foldl_nil]
    rw [encode_ofNat (.inr (by omega)), if_neg (by omega), if_neg (by omega), if_neg (by omega),
      @ofNat_eq _ b (by omega), @ofNat_eq _ second (by omega), @ofNat_eq _ third (by omega),
      @ofNat_eq _ fourth (by omega)]

/-- Nothing is refused where every unit is a character. -/
theorem mapM_id_eq_some {units : List (Option Char)} {text : List Char} :
    units.mapM id = some text ↔ units = text.map some := by
  constructor
  · intro h
    induction units generalizing text with
    | nil =>
      obtain rfl := Option.some.inj h
      rfl
    | cons unit units ih =>
      rw [List.mapM_cons] at h
      rcases unit with _ | c
      · cases h
      rcases later : units.mapM id with _ | more
      · rw [later] at h
        cases h
      · rw [later] at h
        obtain rfl := Option.some.inj h
        rw [ih later, List.map_cons]
  · rintro rfl
    induction text with
    | nil => rfl
    | cons c text ih => rw [List.map_cons, List.mapM_cons, ih]; rfl

/-- Octets are decoded if each unit of them is a character. -/
theorem decode?_eq_some {octets : List UInt8} {text : List Char} :
    decode? octets = some text ↔ units octets = text.map some := mapM_id_eq_some

/-- Characters that were read are written as the octets they were read from. -/
theorem encodeAll_unitsAfter {passed : Nat} {octets : List UInt8} {text : List Char}
    (h : unitsAfter passed octets = text.map some) : encodeAll text = octets.drop passed := by
  fun_induction unitsAfter passed octets generalizing text with
  | case1 passed =>
    obtain rfl := List.map_eq_nil_iff.1 h.symm
    rw [List.drop_nil]
    rfl
  | case2 passed b rest ih =>
    rw [List.drop_succ_cons]
    exact ih h
  | case3 b rest unit passed eq ih =>
    obtain ⟨c, text, rfl, rfl, later⟩ := List.map_eq_cons_iff.1 h.symm
    change encode c ++ encodeAll text = b :: rest
    rw [encode_readAt eq, ih later.symm, List.cons_append, List.take_append_drop]

/-- Octets that are read as a text are the octets of that text. -/
theorem encodeAll_of_decode? {octets : List UInt8} {chars : List Char}
    (h : decode? octets = some chars) : encodeAll chars = octets :=
  encodeAll_unitsAfter (decode?_eq_some.1 h)

/-! ### Back again -/

/-- The table has a row for every first octet whose bits the second octet does not rule out. -/
theorem Owed.exists_of? {b second : UInt8} {bits more : Nat}
    (range : 0x80 ≤ second.toNat ∧ second.toNat ≤ 0xBF)
    (h : (more = 0 ∧ b.toNat = 0xC0 + bits ∧ 2 ≤ bits ∧ bits < 0x20) ∨
      (more = 1 ∧ b.toNat = 0xE0 + bits ∧ bits < 0x10 ∧ (bits = 0 → 0xA0 ≤ second.toNat) ∧
        (bits = 0xD → second.toNat ≤ 0x9F)) ∨
      (more = 2 ∧ b.toNat = 0xF0 + bits ∧ bits ≤ 4 ∧ (bits = 0 → 0x90 ≤ second.toNat) ∧
        (bits = 4 → second.toNat ≤ 0x8F))) :
    ∃ owed, of? b = some owed ∧ owed.bits = bits ∧ owed.more = more ∧
      owed.low.toNat ≤ second.toNat ∧ second.toNat ≤ owed.high.toNat := by
  unfold of?
  simp only [UInt8.le_iff_toNat_le, ← UInt8.toNat_inj, UInt8.reduceToNat]
  repeat' split
  all_goals first | exfalso; omega | refine ⟨_, rfl, ?_⟩
  all_goals dsimp only [UInt8.reduceToNat]; omega

/-- Octets that the table allows are read as one character. -/
theorem readAt_sequence {b second : UInt8} {tails : List UInt8} {bits more : Nat}
    (owes : ∃ owed, Owed.of? b = some owed ∧ owed.bits = bits ∧ owed.more = more ∧
      owed.low.toNat ≤ second.toNat ∧ second.toNat ≤ owed.high.toNat)
    (length : tails.length = more) (all : ∀ t ∈ tails, isTail t) (rest : List UInt8) :
    readAt b (second :: tails ++ rest) =
      (some (.ofNat (addTails bits (second :: tails))), (second :: tails).length) := by
  obtain ⟨owed, owes, rfl, rfl, low, high⟩ := owes
  have notAscii : ¬b < 0x80 := by
    have first := Owed.of?_eq_some owes
    rw [UInt8.lt_iff_toNat_lt]
    simp only [UInt8.reduceToNat]
    omega
  have taken : ((tails ++ rest).take owed.more).takeWhile isTail = tails := by
    have whole : (tails ++ []).takeWhile isTail = tails ++ [] := List.takeWhile_append_of_pos all
    rw [← length, List.take_left]
    rwa [List.append_nil] at whole
  unfold readAt
  rw [if_neg notAscii, owes, List.cons_append]
  simp only [UInt8.le_iff_toNat_le, low, high, and_self, taken, length, if_true, List.length_cons]

theorem toNat_ofNat_octet {n : Nat} (h : n < 0x100) : (UInt8.ofNat n).toNat = n :=
  UInt8.toNat_ofNat_of_lt h

/-- Any six bits make an octet that continues a character. -/
theorem isTail_ofNat (n : Nat) : isTail (.ofNat (0x80 + n % 0x40)) := by
  have octet := @toNat_ofNat_octet (0x80 + n % 0x40) (by omega)
  simp only [isTail, UInt8.le_iff_toNat_le, octet, UInt8.reduceToNat, decide_eq_true_eq]
  omega

/-- A character of one octet is read back. -/
theorem readAt_one {n : Nat} (h : n < 0x80) (rest : List UInt8) :
    readAt (.ofNat n) rest = (some (.ofNat n), 0) := by
  have octet := @toNat_ofNat_octet n (by omega)
  have ascii : UInt8.ofNat n < 0x80 := by
    rw [UInt8.lt_iff_toNat_lt, octet]
    exact h
  unfold readAt
  rw [if_pos ascii, octet]

/-- A character of two octets is read back. -/
theorem readAt_two {n : Nat} (notOne : ¬n < 0x80) (h : n < 0x800) (rest : List UInt8) :
    readAt (.ofNat (0xC0 + n / 0x40)) (.ofNat (0x80 + n % 0x40) :: rest) =
      (some (.ofNat n), 1) := by
  have first := @toNat_ofNat_octet (0xC0 + n / 0x40) (by omega)
  have second := @toNat_ofNat_octet (0x80 + n % 0x40) (by omega)
  have owes := @Owed.exists_of? (.ofNat (0xC0 + n / 0x40)) (.ofNat (0x80 + n % 0x40)) (n / 0x40) 0
    (by omega) (by omega)
  have value : addTails (n / 0x40) [.ofNat (0x80 + n % 0x40)] = n := by
    simp only [addTails, List.foldl_cons, List.foldl_nil, second]
    omega
  refine (readAt_sequence owes rfl (fun t mem => absurd mem List.not_mem_nil) rest).trans ?_
  rw [value]
  rfl

/-- A character of three octets is read back, for it is no surrogate. -/
theorem readAt_three {n : Nat} (valid : n.isValidChar) (notTwo : ¬n < 0x800) (h : n < 0x10000)
    (rest : List UInt8) :
    readAt (.ofNat (0xE0 + n / 0x1000))
        (.ofNat (0x80 + n / 0x40 % 0x40) :: .ofNat (0x80 + n % 0x40) :: rest) =
      (some (.ofNat n), 2) := by
  have noSurrogate : n < 0xD800 ∨ 0xDFFF < n ∧ n < 0x110000 := valid
  have first := @toNat_ofNat_octet (0xE0 + n / 0x1000) (by omega)
  have second := @toNat_ofNat_octet (0x80 + n / 0x40 % 0x40) (by omega)
  have third := @toNat_ofNat_octet (0x80 + n % 0x40) (by omega)
  have owes := @Owed.exists_of? (.ofNat (0xE0 + n / 0x1000)) (.ofNat (0x80 + n / 0x40 % 0x40))
    (n / 0x1000) 1 (by omega) (by omega)
  have value : addTails (n / 0x1000) [.ofNat (0x80 + n / 0x40 % 0x40), .ofNat (0x80 + n % 0x40)] =
      n := by
    simp only [addTails, List.foldl_cons, List.foldl_nil, second, third]
    omega
  have tails : ∀ t ∈ [UInt8.ofNat (0x80 + n % 0x40)], isTail t := by
    simp only [List.forall_mem_singleton, isTail_ofNat]
  refine (readAt_sequence owes rfl tails rest).trans ?_
  rw [value]
  rfl

/-- A character of four octets is read back, for it is not too large. -/
theorem readAt_four {n : Nat} (valid : n.isValidChar) (notThree : ¬n < 0x10000)
    (rest : List UInt8) :
    readAt (.ofNat (0xF0 + n / 0x40000)) (.ofNat (0x80 + n / 0x1000 % 0x40) ::
        .ofNat (0x80 + n / 0x40 % 0x40) :: .ofNat (0x80 + n % 0x40) :: rest) =
      (some (.ofNat n), 3) := by
  have bound : n < 0xD800 ∨ 0xDFFF < n ∧ n < 0x110000 := valid
  have first := @toNat_ofNat_octet (0xF0 + n / 0x40000) (by omega)
  have second := @toNat_ofNat_octet (0x80 + n / 0x1000 % 0x40) (by omega)
  have third := @toNat_ofNat_octet (0x80 + n / 0x40 % 0x40) (by omega)
  have fourth := @toNat_ofNat_octet (0x80 + n % 0x40) (by omega)
  have owes := @Owed.exists_of? (.ofNat (0xF0 + n / 0x40000)) (.ofNat (0x80 + n / 0x1000 % 0x40))
    (n / 0x40000) 2 (by omega) (by omega)
  have value : addTails (n / 0x40000) [.ofNat (0x80 + n / 0x1000 % 0x40),
      .ofNat (0x80 + n / 0x40 % 0x40), .ofNat (0x80 + n % 0x40)] = n := by
    simp only [addTails, List.foldl_cons, List.foldl_nil, second, third, fourth]
    omega
  have tails : ∀ t ∈ [UInt8.ofNat (0x80 + n / 0x40 % 0x40), .ofNat (0x80 + n % 0x40)],
      isTail t := by
    simp only [List.forall_mem_cons, isTail_ofNat, List.not_mem_nil, false_implies, implies_true,
      and_self]
  refine (readAt_sequence owes rfl tails rest).trans ?_
  rw [value]
  rfl

/-- The octets of a character are read as that character, whatever follows. -/
theorem readAt_encode (c : Char) (rest : List UInt8) : ∃ b tails, encode c = b :: tails ∧
    readAt b (tails ++ rest) = (some c, tails.length) := by
  have valid : c.toNat.isValidChar := c.valid
  rw [← Char.ofNat_toNat c, encode_ofNat valid]
  by_cases one : c.toNat < 0x80
  · rw [if_pos one]
    exact ⟨_, _, rfl, readAt_one one rest⟩
  rw [if_neg one]
  by_cases two : c.toNat < 0x800
  · rw [if_pos two]
    exact ⟨_, _, rfl, readAt_two one two rest⟩
  rw [if_neg two]
  by_cases three : c.toNat < 0x10000
  · rw [if_pos three]
    exact ⟨_, _, rfl, readAt_three valid two three rest⟩
  · rw [if_neg three]
    exact ⟨_, _, rfl, readAt_four valid three rest⟩

/-- Octets that were passed play no part any more. -/
theorem unitsAfter_append (front rest : List UInt8) :
    unitsAfter front.length (front ++ rest) = unitsAfter 0 rest := by
  induction front with
  | nil => rfl
  | cons b front ih => exact ih

/-- The octets of a text are read as that text. -/
theorem decode?_encodeAll (text : List Char) : decode? (encodeAll text) = some text := by
  rw [decode?_eq_some, units]
  induction text with
  | nil => rfl
  | cons c text ih =>
    obtain ⟨b, tails, eq, read⟩ := readAt_encode c (encodeAll text)
    change unitsAfter 0 (encode c ++ encodeAll text) = _
    rw [eq, List.cons_append, unitsAfter, read]
    exact congrArg (some c :: ·) ((unitsAfter_append tails _).trans ih)

end Utf8

/-! ## Both encodings -/

/-- In either encoding a meaning is written as the octets that have it. -/
theorem Encoding.encodeAll_of_decode? {encoding : Encoding} {octets : List UInt8}
    {chars : List Char} (h : encoding.decode? octets = some chars) :
    encoding.encodeAll chars = octets := by
  cases encoding with
  | utf8 => exact Utf8.encodeAll_of_decode? h
  | latin1 =>
    obtain rfl := Option.some.inj h
    induction octets with
    | nil => rfl
    | cons b rest ih =>
      have small := b.toNat_lt
      have eq : (Char.ofNat b.toNat).toNat = b.toNat := Utf8.toNat_ofNat (.inl (by omega))
      change (if _ then _ else _) :: Encoding.latin1.encodeAll (Encoding.latin1.decode rest) = _
      rw [eq, if_pos small, UInt8.ofNat_toNat, ih rfl]

/-- Latin-1 has no bytes for characters above U+00FF. -/
def Encoding.Holds (encoding : Encoding) (text : List Char) : Prop :=
  encoding = .latin1 → ∀ c ∈ text, c.toNat ≤ 0xFF

/-- The octets of a text are read as that text, if the encoding has octets for it. -/
theorem Encoding.decode?_encodeAll {encoding : Encoding} {text : List Char}
    (h : encoding.Holds text) : encoding.decode? (encoding.encodeAll text) = some text := by
  cases encoding with
  | utf8 => exact Utf8.decode?_encodeAll text
  | latin1 =>
    refine congrArg some ?_
    induction text with
    | nil => rfl
    | cons c text ih =>
      have le := h rfl c List.mem_cons_self
      have later := ih fun _ d mem => h rfl d (List.mem_cons_of_mem _ mem)
      change Char.ofNat (UInt8.toNat (if c.toNat < 0x100 then _ else _)) ::
        Encoding.latin1.decode (Encoding.latin1.encodeAll text) = _
      rw [if_pos (Nat.lt_succ_of_le le), Utf8.toNat_ofNat_octet (Nat.lt_succ_of_le le),
        Char.ofNat_toNat, later]

end PhpFrontEnd
