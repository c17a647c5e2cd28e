import Mathlib.Algebra.Order.Ring.Int
import PhpFrontEnd.Literal.Integer

/-!
# What the digits of an integer denote

Digits denote a number by Horner's rule (`valueFrom`). A word that sums them holds that number as
long as it is below `2 ^ 63`, whether it multiplies by the radix or shifts: then no step on the way
wraps around, because the sum only grows. The shortcuts for short literals need no check, since so
few digits cannot denote more.
-/

namespace PhpFrontEnd.IntegerLiteral

/-! ## The number itself -/

/-- The number that digits denote when they are written after a number. -/
def valueFrom (radix value : Nat) (digits : List Nat) : Nat :=
  digits.foldl (fun value d => value * radix + d) value

theorem le_valueFrom {radix : Nat} (pos : 0 < radix) (value : Nat) (digits : List Nat) :
    value ≤ valueFrom radix value digits := by
  induction digits generalizing value with
  | nil => exact Nat.le_refl _
  | cons d rest ih =>
    calc
      value ≤ value * radix := Nat.le_mul_of_pos_right value pos
      _ ≤ value * radix + d := Nat.le_add_right _ _
      _ ≤ valueFrom radix value (d :: rest) := ih _

/-- Each digit multiplies the bound by the radix. -/
theorem valueFrom_lt {radix value bound : Nat} {digits : List Nat}
    (lt : ∀ d ∈ digits, d < radix) (h : value < bound) :
    valueFrom radix value digits < bound * radix ^ digits.length := by
  induction digits generalizing value bound with
  | nil => simpa [valueFrom] using h
  | cons d rest ih =>
    have next : value * radix + d < bound * radix := by
      calc
        value * radix + d < value * radix + radix :=
          Nat.add_lt_add_left (lt d List.mem_cons_self) _
        _ = (value + 1) * radix := (Nat.succ_mul value radix).symm
        _ ≤ bound * radix := Nat.mul_le_mul_right radix h
    have later := ih (fun d mem => lt d (List.mem_cons_of_mem _ mem)) next
    rw [List.length_cons, Nat.pow_succ', ← Nat.mul_assoc]
    exact later

/-- A digit is less than its radix. -/
theorem digitValue?_lt {radix d : Nat} {c : Char} (h : digitValue? radix c = some d) :
    d < radix := by
  obtain ⟨-, lt⟩ := Option.filter_eq_some_iff.1 h
  exact of_decide_eq_true lt

theorem digitValues_lt (radix : Nat) (text : List Char) :
    ∀ d ∈ digitValues radix text, d < radix := by
  induction text with
  | nil => exact nofun
  | cons c rest ih =>
    rw [digitValues]
    split
    · rename_i d eq
      intro other mem
      rcases List.mem_cons.1 mem with rfl | mem
      · exact digitValue?_lt eq
      · exact ih other mem
    · exact nofun

theorem significantDigits_lt (radix : Nat) (text : List Char) :
    ∀ d ∈ significantDigits radix text, d < radix :=
  digitValues_lt radix _

/-- So few digits denote a number below `2 ^ 63`. -/
theorem valueFrom_lt_of_fitsByCount {radix : Nat} {digits : List Nat}
    (lt : ∀ d ∈ digits, d < radix) (h : fitsByCount radix digits.length) :
    valueFrom radix 0 digits < 2 ^ 63 := by
  have bound := valueFrom_lt lt Nat.one_pos
  rw [Nat.one_mul] at bound
  refine Nat.lt_of_lt_of_le bound ?_
  have upTo (count : Nat) (pos : 0 < radix) (le : digits.length ≤ count)
      (fits : radix ^ count ≤ 2 ^ 63) : radix ^ digits.length ≤ 2 ^ 63 :=
    Nat.le_trans (Nat.pow_le_pow_right pos le) fits
  unfold fitsByCount at h
  split at h
  · exact upTo 63 (by decide) (Nat.le_of_lt_succ (of_decide_eq_true h)) (by decide)
  · exact upTo 21 (by decide) (Nat.le_of_lt_succ (of_decide_eq_true h)) (by decide)
  · exact upTo 18 (by decide) (Nat.le_of_lt_succ (of_decide_eq_true h)) (by decide)
  · exact upTo 15 (by decide) (Nat.le_of_lt_succ (of_decide_eq_true h)) (by decide)
  · cases h

/-- Hexadecimal digits whose bits a word has room for: few of them, or sixteen of which the first
leaves the sign bit alone. -/
def FitInBits (digits : List Nat) : Prop :=
  fitsByCount 16 digits.length ∨ (digits.length = 16 ∧ digits.headD 8 < 8)

/-- Sixteen hexadecimal digits fit if the first of them is less than eight. -/
theorem valueFrom_lt_of_fitInBits {digits : List Nat} (digit : ∀ d ∈ digits, d < 16)
    (h : FitInBits digits) : valueFrom 16 0 digits < 2 ^ 63 := by
  obtain short | ⟨length, head⟩ := h
  · exact valueFrom_lt_of_fitsByCount digit short
  · rcases digits with _ | ⟨d, rest⟩
    · exact Nat.two_pow_pos 63
    · have bound : valueFrom 16 d rest < 8 * 16 ^ rest.length :=
        valueFrom_lt (fun d mem => digit d (List.mem_cons_of_mem _ mem)) head
      rw [Nat.succ.inj length] at bound
      simpa [valueFrom] using bound

/-! ## The number in a word -/

/-- To multiply and add goes right in a word that holds the result. -/
theorem toInt_mul_add {radix n d : Nat} {value : Int64} (h : value.toInt = n)
    (small : radix < 2 ^ 63) (lt : n * radix + d < 2 ^ 63) :
    (value * .ofNat radix + .ofNat d).toInt = (n * radix + d : Nat) := by
  have digit : d < 2 ^ 63 := Nat.lt_of_le_of_lt (Nat.le_add_left _ _) lt
  rw [Int64.toInt_add, Int64.toInt_mul, h, Int64.toInt_ofNat_of_lt small,
    Int64.toInt_ofNat_of_lt digit]
  have product : ((n : Int) * radix).bmod (2 ^ 64) = n * radix :=
    Int.bmod_eq_of_le (by omega) (by omega)
  rw [product, Int.bmod_eq_of_le (by omega) (by omega)]
  exact (Int.natCast_add _ _).symm

/-- A word that is not negative, as bits. -/
theorem toNat_toBitVec_eq {n : Nat} {value : Int64} (h : value.toInt = n) :
    value.toBitVec.toNat = n := by
  have lt := value.toBitVec.isLt
  rw [← Int64.toInt_toBitVec, BitVec.toInt_eq_toNat_cond] at h
  split at h <;> omega

/-- A shifted word has room for one digit more. -/
theorem toInt_shiftLeft_or {n d : Nat} {value : Int64} (h : value.toInt = n) (digit : d < 16)
    (lt : n * 16 + d < 2 ^ 63) : (value <<< 4 ||| .ofNat d).toInt = (n * 16 + d : Nat) := by
  have four : (4 : Int64).toBitVec.smod 64 = 4#64 := by decide
  have bits : (value <<< 4 ||| .ofNat d).toBitVec.toNat = n * 16 + d := by
    calc
      (value <<< 4 ||| .ofNat d).toBitVec.toNat = n <<< 4 % 2 ^ 64 ||| d % 2 ^ 64 := by
        rw [Int64.toBitVec_or, Int64.toBitVec_shiftLeft, four, BitVec.shiftLeft_eq',
          BitVec.toNat_or, BitVec.toNat_shiftLeft, toNat_toBitVec_eq h, Int64.toBitVec_ofNat',
          BitVec.toNat_ofNat]
        rfl
      _ = n <<< 4 ||| d := by
        rw [Nat.shiftLeft_eq, Nat.mod_eq_of_lt (by omega), Nat.mod_eq_of_lt (by omega)]
      _ = n * 16 + d := by rw [← Nat.shiftLeft_add_eq_or_of_lt digit, Nat.shiftLeft_eq]
  rw [← Int64.toInt_toBitVec, BitVec.toInt_eq_toNat_of_lt (by omega), bits]

/-- Taking in digits with steps that are exact as long as the sum fits is exact if it fits. -/
theorem toInt_foldl {radix n : Nat} {next : Int64 → Nat → Int64} {value : Int64}
    {digits : List Nat} (pos : 0 < radix)
    (step : ∀ (value : Int64) (n d : Nat), d ∈ digits → value.toInt = n →
      n * radix + d < 2 ^ 63 → (next value d).toInt = (n * radix + d : Nat))
    (h : value.toInt = n) (lt : valueFrom radix n digits < 2 ^ 63) :
    (digits.foldl next value).toInt = valueFrom radix n digits := by
  induction digits generalizing value n with
  | nil => exact h
  | cons d rest ih =>
    have fits : n * radix + d < 2 ^ 63 := Nat.lt_of_le_of_lt (le_valueFrom pos _ rest) lt
    exact ih (fun value n d mem => step value n d (List.mem_cons_of_mem _ mem))
      (step value n d List.mem_cons_self h fits) lt

theorem toInt_sum {radix : Nat} {digits : List Nat} (pos : 0 < radix) (small : radix < 2 ^ 63)
    (lt : valueFrom radix 0 digits < 2 ^ 63) :
    (sum radix digits).toInt = valueFrom radix 0 digits :=
  toInt_foldl pos (fun _ _ _ _ h => toInt_mul_add h small) rfl lt

theorem toInt_shiftIn {digits : List Nat} (digit : ∀ d ∈ digits, d < 16)
    (lt : valueFrom 16 0 digits < 2 ^ 63) : (shiftIn digits).toInt = valueFrom 16 0 digits :=
  toInt_foldl (by decide) (fun _ _ d mem h => toInt_shiftLeft_or h (digit d mem)) rfl lt

/-- What is summed with a check on every step is exact, or does not fit. -/
theorem accumulate_exact {radix n : Nat} {value result : Int64} {digits : List Nat}
    (small : radix < 2 ^ 63) (h : value.toInt = n)
    (eq : accumulate radix value digits = .exact result) :
    result.toInt = valueFrom radix n digits := by
  induction digits generalizing value n with
  | nil =>
    cases eq
    exact h
  | cons d rest ih =>
    rw [accumulate] at eq
    split at eq
    · rename_i fits
      rw [h, Int64.toInt_maxValue] at fits
      exact ih (toInt_mul_add h small (by omega)) eq
    · cases eq

/-- An exact value is the number that the digits denote. -/
theorem toInt_of_read {radix : Nat} {text : List Char} {result : Int64} (pos : 0 < radix)
    (small : radix < 2 ^ 63) (h : read radix text = .exact result) :
    result.toInt = valueFrom radix 0 (significantDigits radix text) := by
  have digit := significantDigits_lt radix text
  rw [read] at h
  split at h
  · rename_i sixteen
    subst sixteen
    split at h
    · rename_i short
      obtain rfl := IntegerLiteral.exact.inj h
      exact toInt_shiftIn digit (valueFrom_lt_of_fitInBits digit short)
    · cases h
  · split at h
    · rename_i short
      obtain rfl := IntegerLiteral.exact.inj h
      exact toInt_sum pos small (valueFrom_lt_of_fitsByCount digit short)
    · exact accumulate_exact small rfl h

/-! ## Numbers that no word holds -/

theorem mul_pow_le_valueFrom (radix value : Nat) (digits : List Nat) :
    value * radix ^ digits.length ≤ valueFrom radix value digits := by
  induction digits generalizing value with
  | nil => exact Nat.le_of_eq (Nat.mul_one value)
  | cons d rest ih =>
    calc
      value * radix ^ (d :: rest).length = value * radix * radix ^ rest.length := by
        rw [List.length_cons, Nat.pow_succ', Nat.mul_assoc]
      _ ≤ (value * radix + d) * radix ^ rest.length :=
        Nat.mul_le_mul_right _ (Nat.le_add_right _ _)
      _ ≤ valueFrom radix value (d :: rest) := ih _

/-- Only the digit zero is worth nothing. -/
theorem digitValue?_pos {radix d : Nat} {c : Char} (ne : c ≠ '0')
    (h : digitValue? radix c = some d) : 0 < d := by
  obtain ⟨value, -⟩ := Option.filter_eq_some_iff.1 h
  split at value
  · rename_i digit
    rw [Char.isDigit, Bool.and_eq_true, decide_eq_true_eq] at digit
    have other : '0'.toNat ≠ c.toNat := fun eq => ne (Char.toNat_inj.1 eq).symm
    have apart : '0'.toNat < c.toNat :=
      Nat.lt_of_le_of_ne (UInt32.le_iff_toNat_le.1 digit.1) other
    rw [← Option.some.inj value]
    exact Nat.sub_pos_of_lt apart
  · split at value
    · rw [← Option.some.inj value]
      exact Nat.succ_pos _
    · split at value
      · rw [← Option.some.inj value]
        exact Nat.succ_pos _
      · cases value

/-- The first digit that matters is not zero. -/
theorem significantDigits_head_pos {radix d : Nat} {text : List Char} {rest : List Nat}
    (h : significantDigits radix text = d :: rest) : 0 < d := by
  rw [significantDigits] at h
  rcases stripped : (text.filter (· ≠ '_')).dropWhile (· = '0') with _ | ⟨c, later⟩
  · rw [stripped] at h
    cases h
  · have ne : c ≠ '0' := by
      have first := List.head?_dropWhile_not (fun c : Char => decide (c = '0'))
        (text.filter (· ≠ '_'))
      rw [stripped] at first
      simpa using first
    rw [stripped, digitValues] at h
    split at h
    · rename_i value eq
      obtain ⟨rfl, -⟩ := List.cons.inj h
      exact digitValue?_pos ne eq
    · cases h

/-- Summing with a check on every step stops only where the number does not fit. -/
theorem le_of_accumulate {radix n : Nat} {value : Int64} {x : Float} {digits : List Nat}
    (pos : 0 < radix) (small : radix < 2 ^ 63) (h : value.toInt = n)
    (eq : accumulate radix value digits = .overflow x) : 2 ^ 63 ≤ valueFrom radix n digits := by
  induction digits generalizing value n with
  | nil => cases eq
  | cons d rest ih =>
    rw [accumulate] at eq
    split at eq
    · rename_i fits
      rw [h, Int64.toInt_maxValue] at fits
      exact ih (toInt_mul_add h small (by omega)) eq
    · rename_i full
      rw [h, Int64.toInt_maxValue] at full
      have reached : 2 ^ 63 ≤ n * radix + d := by omega
      exact Nat.le_trans reached (le_valueFrom pos _ rest)

/-- Hexadecimal digits for whose bits a word has no room denote a number that is too big, for the
first of them is not zero. -/
theorem le_valueFrom_of_not_fitInBits {text : List Char}
    (long : ¬FitInBits (significantDigits 16 text)) :
    2 ^ 63 ≤ valueFrom 16 0 (significantDigits 16 text) := by
  rw [FitInBits, not_or, fitsByCount, decide_eq_true_eq, Nat.not_lt] at long
  rcases eq : significantDigits 16 text with _ | ⟨d, rest⟩
  · rw [eq] at long
    exact absurd long.1 (by decide)
  · have first := significantDigits_head_pos eq
    have least := mul_pow_le_valueFrom 16 d rest
    rw [eq, List.length_cons] at long
    have whole : valueFrom 16 0 (d :: rest) = valueFrom 16 d rest := by simp [valueFrom]
    rw [whole]
    refine Nat.le_trans ?_ least
    rcases Nat.lt_or_eq_of_le long.1 with more | sixteen
    · -- with seventeen digits any first digit is enough
      calc
        2 ^ 63 ≤ 1 * 16 ^ 16 := by decide
        _ ≤ d * 16 ^ rest.length :=
          Nat.mul_le_mul first (Nat.pow_le_pow_right (by decide) (Nat.le_of_lt_succ more))
    · have high : 8 ≤ d := Nat.not_lt.1 fun low => long.2 ⟨sixteen.symm, low⟩
      calc
        2 ^ 63 = 8 * 16 ^ 15 := by decide
        _ ≤ d * 16 ^ rest.length := by
          rw [← Nat.succ.inj sixteen]
          exact Nat.mul_le_mul_right _ high

/-- A number is given up as a word only if no word holds it. -/
theorem le_of_read {radix : Nat} {text : List Char} {x : Float} (pos : 0 < radix)
    (small : radix < 2 ^ 63) (h : read radix text = .overflow x) :
    2 ^ 63 ≤ valueFrom radix 0 (significantDigits radix text) := by
  rw [read] at h
  split at h
  · rename_i sixteen
    subst sixteen
    split at h
    · cases h
    · rename_i long
      exact le_valueFrom_of_not_fitInBits long
  · split at h
    · cases h
    · exact le_of_accumulate pos small rfl h

/-- Leading zeros add nothing to a number. -/
theorem valueFrom_significantDigits {radix : Nat} (pos : 0 < radix) (text : List Char) :
    valueFrom radix 0 (significantDigits radix text) =
      valueFrom radix 0 (digitValues radix (text.filter (· ≠ '_'))) := by
  have zero : digitValue? radix '0' = some 0 := by
    simp [digitValue?, pos, Char.isDigit]
  rw [significantDigits]
  induction text.filter (· ≠ '_') with
  | nil => rfl
  | cons c rest ih =>
    by_cases leading : c = '0'
    · rw [List.dropWhile_cons_of_pos (by simpa using leading), ih, leading, digitValues, zero]
      simp [valueFrom]
    · rw [List.dropWhile_cons_of_neg (by simpa using leading)]

/-- Underscores and leading zeros do not count. -/
example : valueFrom 16 0 (significantDigits 16 "0_7f".toList) = 127 := by decide

end PhpFrontEnd.IntegerLiteral
