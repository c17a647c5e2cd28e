import PhpFrontEnd.Proofs.IntegerTokens

/-!
# Integers in words

There are three ways to read an integer. Few digits are summed in a word by products, few
hexadecimal digits have their bits shifted in, and all others are summed with a check on every step.
Only the last way looks out for a word that would wrap around.

The other two need not. On the way to the number that all digits denote the word holds smaller ones,
and so few digits denote no number that is too big for it (`adds_of_front`, `shiftsIn_of_front`);
the counts of digits for which that is so are as they should be (`fitsByCount_iff`). So it makes no
difference which way is taken: an integer is exact just if the checked sum is, and both hold the
number that is denoted (`reads_exactly`).
-/

namespace PhpFrontEnd.IntegerLiteral

variable {radix n d count : Nat} {value : Int64} {digits front back : List Nat} {text : List Char}

/-! ## One digit -/

/-- A digit is taken into a word by a product and a sum, and neither of them wraps around. -/
structure Adds (radix : Nat) (value : Int64) (d : Nat) : Prop where
  product : (value * .ofNat radix).toInt = value.toInt * radix
  sum : (value * .ofNat radix + .ofNat d).toInt = (value * .ofNat radix).toInt + d

/-- The bits of a hexadecimal digit are taken into a word, and none is lost on the left or filled in
twice on the right. -/
structure ShiftsIn (value : Int64) (d : Nat) : Prop where
  shifted : (value <<< 4).toInt = value.toInt * 16
  filled : (value <<< 4 ||| .ofNat d).toInt = (value <<< 4).toInt + d

theorem adds_of_lt (h : value.toInt = n) (small : radix < 2 ^ 63) (lt : n * radix + d < 2 ^ 63) :
    Adds radix value d := by
  have product : (value * .ofNat radix).toInt = n * radix := by
    simpa using toInt_mul_add (d := 0) h small (by omega)
  have sum := toInt_mul_add h small lt
  refine ⟨?_, ?_⟩
  · rw [product, h]
  · rw [product, sum]
    simp

theorem shiftsIn_of_lt (h : value.toInt = n) (digit : d < 16) (lt : n * 16 + d < 2 ^ 63) :
    ShiftsIn value d := by
  have shifted : (value <<< 4).toInt = n * 16 := by
    simpa using toInt_shiftLeft_or (d := 0) h (by decide) (by omega)
  have filled := toInt_shiftLeft_or h digit lt
  refine ⟨?_, ?_⟩
  · rw [shifted, h]
  · rw [shifted, filled]
    simp

/-! ## All digits -/

/-- What some digits denote together with the next one is at most what all of them denote. -/
theorem front_le_valueFrom (pos : 0 < radix) (front : List Nat) (d : Nat) (back : List Nat) :
    valueFrom radix 0 front * radix + d ≤ valueFrom radix 0 (front ++ d :: back) := by
  have split : valueFrom radix 0 (front ++ d :: back) =
      valueFrom radix (valueFrom radix 0 front * radix + d) back := by
    simp [valueFrom]
  rw [split]
  exact le_valueFrom pos _ back

/-- **Products do not wrap** on the way to a number that fits in a word. -/
theorem adds_of_front (pos : 0 < radix) (small : radix < 2 ^ 63)
    (lt : valueFrom radix 0 (front ++ d :: back) < 2 ^ 63) : Adds radix (sum radix front) d := by
  have next := Nat.lt_of_le_of_lt (front_le_valueFrom pos front d back) lt
  have before : valueFrom radix 0 front < 2 ^ 63 := by
    calc
      valueFrom radix 0 front ≤ valueFrom radix 0 front * radix := Nat.le_mul_of_pos_right _ pos
      _ ≤ valueFrom radix 0 front * radix + d := Nat.le_add_right _ _
      _ < 2 ^ 63 := next
  exact adds_of_lt (toInt_sum pos small before) small next

/-- **Shifts lose nothing** on the way to a number that fits in a word. -/
theorem shiftsIn_of_front (digit : ∀ other ∈ front ++ d :: back, other < 16)
    (lt : valueFrom 16 0 (front ++ d :: back) < 2 ^ 63) : ShiftsIn (shiftIn front) d := by
  have next := Nat.lt_of_le_of_lt (front_le_valueFrom (by decide) front d back) lt
  have before : valueFrom 16 0 front < 2 ^ 63 := by omega
  have inFront : ∀ other ∈ front, other < 16 := by
    intro other mem
    exact digit other (List.mem_append_left _ mem)
  exact shiftsIn_of_lt (toInt_shiftIn inFront before) (digit d (by simp)) next

/-! ## How many digits fit -/

/-- So many of the highest digits are one short of a power of the radix. -/
theorem valueFrom_replicate (pos : 0 < radix) (count : Nat) :
    valueFrom radix 0 (List.replicate count (radix - 1)) + 1 = radix ^ count := by
  induction count with
  | zero => rfl
  | succ count ih =>
    have last : valueFrom radix 0 (List.replicate (count + 1) (radix - 1)) =
        valueFrom radix 0 (List.replicate count (radix - 1)) * radix + (radix - 1) := by
      rw [List.replicate_succ']
      simp [valueFrom]
    rw [last, Nat.pow_succ, ← ih, Nat.succ_mul]
    omega

theorem fitsByCount_of_pow_le (mem : radix ∈ [2, 8, 10, 16]) (le : radix ^ count ≤ 2 ^ 63) :
    fitsByCount radix count := by
  have less {limit : Nat} (pos : 0 < radix) (exceeds : 2 ^ 63 < radix ^ limit) : count < limit := by
    by_contra reached
    have more : radix ^ limit ≤ radix ^ count := Nat.pow_le_pow_right pos (by omega)
    omega
  simp only [List.mem_cons, List.not_mem_nil, or_false] at mem
  rcases mem with rfl | rfl | rfl | rfl
  · exact decide_eq_true (less (by decide) (by decide))
  · exact decide_eq_true (less (by decide) (by decide))
  · exact decide_eq_true (less (by decide) (by decide))
  · exact decide_eq_true (less (by decide) (by decide))

/-- **The counts are tight.** In the radices of literals so many digits count as few just if no
number of so many digits is too big for a word. -/
theorem fitsByCount_iff (mem : radix ∈ [2, 8, 10, 16]) : fitsByCount radix count ↔
    ∀ digits : List Nat, digits.length = count → (∀ d ∈ digits, d < radix) →
      valueFrom radix 0 digits < 2 ^ 63 := by
  constructor
  · rintro few digits rfl digit
    exact valueFrom_lt_of_fitsByCount digit few
  · intro all
    have pos : 0 < radix := by
      have radices : ∀ radix ∈ [2, 8, 10, 16], 0 < radix := by decide
      exact radices radix mem
    have highest := all (List.replicate count (radix - 1)) List.length_replicate (by
      intro d mem
      rw [List.eq_of_mem_replicate mem]
      omega)
    apply fitsByCount_of_pow_le mem
    rw [← valueFrom_replicate pos]
    exact highest

/-! ## Exact words -/

/-- The checked sum is exact just if the word holds what the digits denote. -/
theorem accumulate_eq_exact_iff (pos : 0 < radix) (small : radix < 2 ^ 63) :
    accumulate radix 0 digits = .exact value ↔ value.toInt = valueFrom radix 0 digits := by
  constructor
  · exact accumulate_exact small rfl
  · intro eq
    rcases result : accumulate radix 0 digits with other | x
    · have same : other.toInt = valueFrom radix 0 digits := accumulate_exact small rfl result
      rw [Int64.toInt_inj.1 (same.trans eq.symm)]
    · have tooBig : 2 ^ 63 ≤ valueFrom radix 0 digits := le_of_accumulate pos small rfl result
      have lt : value.toInt < 2 ^ 63 := Int64.toInt_lt value
      omega

/-- An integer is exact just if the word holds the number that it denotes. -/
theorem read_eq_exact_iff (pos : 0 < radix) (small : radix < 2 ^ 63) :
    read radix text = .exact value ↔ value.toInt = number radix text := by
  rw [number_eq pos]
  constructor
  · exact toInt_of_read pos small
  · intro eq
    rcases result : read radix text with other | x
    · have same := toInt_of_read pos small result
      rw [Int64.toInt_inj.1 (same.trans eq.symm)]
    · have tooBig := le_of_read pos small result
      have lt : value.toInt < 2 ^ 63 := Int64.toInt_lt value
      omega

/-- What reading the digits of an integer comes to, and what happens on the way. -/
structure ReadsExactly (radix : Nat) (text : List Char) : Prop where
  /-- a number that 63 bits hold is read as it is -/
  exact : number radix text < 2 ^ 63 → read radix text = .exact (.ofNat (number radix text))
  /-- any other is not read as a word -/
  overflow : 2 ^ 63 ≤ number radix text → ∃ x, read radix text = .overflow x
  /-- few digits are summed without wrapping around -/
  adds : fitsByCount radix (significantDigits radix text).length →
    ∀ front d back, significantDigits radix text = front ++ d :: back →
      Adds radix (sum radix front) d
  /-- few hexadecimal digits are shifted in without losing a bit -/
  shiftsIn : radix = 16 → FitInBits (significantDigits radix text) →
    ∀ front d back, significantDigits radix text = front ++ d :: back → ShiftsIn (shiftIn front) d
  /-- the checked sum comes to the same words -/
  checked : ∀ value, read radix text = .exact value ↔
    accumulate radix 0 (significantDigits radix text) = .exact value

/-- **Integers are read exactly** in every radix, and no word wraps around on the way. -/
theorem reads_exactly (least : 2 ≤ radix) (most : radix ≤ 36) (text : List Char) :
    ReadsExactly radix text := by
  have pos : 0 < radix := by omega
  have small : radix < 2 ^ 63 := by omega
  have digit := significantDigits_lt radix text
  refine ⟨?exact, ?overflow, ?adds, ?shiftsIn, ?checked⟩
  case exact =>
    intro lt
    exact (read_eq_exact_iff pos small).2 (Int64.toInt_ofNat_of_lt lt)
  case overflow =>
    intro ge
    rcases result : read radix text with value | x
    · have eq := (read_eq_exact_iff pos small).1 result
      have lt : value.toInt < 2 ^ 63 := Int64.toInt_lt value
      omega
    · exact ⟨x, rfl⟩
  case adds =>
    intro few front d back eq
    have lt := valueFrom_lt_of_fitsByCount digit few
    rw [eq] at lt
    exact adds_of_front pos small lt
  case shiftsIn =>
    rintro rfl few front d back eq
    have lt := valueFrom_lt_of_fitInBits digit few
    rw [eq] at lt digit
    exact shiftsIn_of_front digit lt
  case checked =>
    intro value
    rw [read_eq_exact_iff pos small, accumulate_eq_exact_iff pos small, number_eq pos]

/-- The largest number of sixteen hexadecimal digits that fits, written with zeros and an underscore
in front and text behind. -/
theorem reads_exactly_sixteen : 2 ≤ 16 ∧ 16 ≤ 36 ∧
    ReadsExactly 16 "0_07fffffffffffffff;8".toList ∧
    FitInBits (significantDigits 16 "0_07fffffffffffffff;8".toList) ∧
    read 16 "0_07fffffffffffffff;8".toList = .exact Int64.maxValue := by
  have all := reads_exactly (by decide : 2 ≤ 16) (by decide) "0_07fffffffffffffff;8".toList
  have denoted : number 16 "0_07fffffffffffffff;8".toList = 2 ^ 63 - 1 := by decide
  have fits : FitInBits (significantDigits 16 "0_07fffffffffffffff;8".toList) :=
    .inr ⟨by decide, by decide⟩
  refine ⟨by decide, by decide, all, fits, ?_⟩
  rw [all.exact (by rw [denoted]; decide), denoted]
  rfl

end PhpFrontEnd.IntegerLiteral
