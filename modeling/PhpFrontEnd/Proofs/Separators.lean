import PhpFrontEnd.Proofs.NumberTokens

/-!
# Underscores in numbers

An underscore is taken into a number if a digit comes after it. Nothing is asked of what comes
before it, so that has to follow from where digits are looked for: at the beginning of a number, in
front of a digit; after a letter that announces a radix, if a digit is next; after an exponent, if
one is next, with or without a sign. After a point nothing is asked, and there an underscore can
follow something else than a digit (`Lexer.scan_underscores`).

What is shown here goes piece by piece: if the underscores in two texts stand where they should,
they do so in the two together (`Spaced.append`).
-/

namespace PhpFrontEnd

/-- A text whose last character has a property. -/
def EndsIn (p : Char → Bool) (text : List Char) : Prop :=
  ∃ front c, text = front ++ [c] ∧ p c

/-- Every underscore of a text stands between two characters with certain properties. -/
def Spaced (before after : Char → Bool) (text : List Char) : Prop :=
  ∀ front back, text = front ++ '_' :: back → EndsIn before front ∧ nextIs after back

/-- The digits of a number: hexadecimal ones if it announces that radix, decimal ones otherwise. -/
def Number.digitIn : List Char → Char → Bool
  | '0' :: 'x' :: _ | '0' :: 'X' :: _ => isDigitOf 16
  | _ => Char.isDigit

/-- What stands in front does not matter for the last character. -/
theorem EndsIn.append {p : Char → Bool} {text : List Char} (h : EndsIn p text)
    (front : List Char) : EndsIn p (front ++ text) := by
  obtain ⟨init, c, rfl, last⟩ := h
  exact ⟨front ++ init, c, (List.append_assoc ..).symm, last⟩

/-- The first character is not the last one if more follow. -/
theorem EndsIn.of_cons {p : Char → Bool} {c : Char} {rest : List Char} (h : EndsIn p (c :: rest))
    (ne : rest ≠ []) : EndsIn p rest := by
  obtain ⟨init, d, eq, last⟩ := h
  rcases init with _ | ⟨e, init⟩
  · exact absurd (List.cons.inj eq).2 ne
  · exact ⟨init, d, (List.cons.inj eq).2, last⟩

/-- What comes later does not matter for the next character. -/
theorem nextIs_append {p : Char → Bool} {text : List Char} (h : nextIs p text)
    (more : List Char) : nextIs p (text ++ more) := by
  rcases text with _ | ⟨c, rest⟩
  · cases h
  · exact h

namespace Spaced

variable {before after : Char → Bool} {text a b : List Char} {c : Char}

/-- Underscores that stand right in two texts stand right in the two together: none of them is at an
end. -/
theorem append (ha : Spaced before after a) (hb : Spaced before after b) :
    Spaced before after (a ++ b) := by
  intro front back eq
  rcases List.append_eq_append_iff.1 eq with ⟨more, rfl, cut⟩ | ⟨more, cut, rest⟩
  · obtain ⟨ends, next⟩ := hb more back cut
    exact ⟨ends.append a, next⟩
  · rcases more with _ | ⟨d, more⟩
    · -- the underscore is the first character of the second part
      obtain ⟨⟨init, c, nil, -⟩, -⟩ := hb [] back rest.symm
      exact absurd nil.symm (by simp)
    · obtain ⟨rfl, rfl⟩ := List.cons.inj rest
      obtain ⟨ends, next⟩ := ha front more cut
      exact ⟨ends, nextIs_append next b⟩

/-- A text without underscores. -/
theorem of_not_mem (h : '_' ∉ text) : Spaced before after text := by
  rintro front back rfl
  exact absurd (by simp) h

/-- More characters may be allowed around underscores. -/
theorem mono {before' after' : Char → Bool} (h : Spaced before after text)
    (le : ∀ c, before c → before' c) (le' : ∀ c, after c → after' c) :
    Spaced before' after' text := by
  intro front back eq
  obtain ⟨⟨init, c, ends, last⟩, next⟩ := h front back eq
  refine ⟨⟨init, c, ends, le c last⟩, ?_⟩
  rcases back with _ | ⟨d, back⟩
  · cases next
  · exact le' d next

end Spaced

namespace Number

variable {radix : Nat} {literal digits : List Char} {c : Char}

theorem not_isDigitOf_underscore (radix : Nat) : isDigitOf radix '_' = false := rfl

/-! ## Underscores piece by piece -/

/-- After a character that may come before an underscore, digits are taken as they should. -/
theorem Run.spaced_cons {before : Char → Bool} (run : Run radix digits)
    (digit : ∀ d, isDigitOf radix d → before d) (first : before c) (ne : c ≠ '_') :
    Spaced before (isDigitOf radix) (c :: digits) := by
  have other {d : Char} (h : isDigitOf radix d) : d ≠ '_' := by
    rintro rfl
    rw [not_isDigitOf_underscore] at h
    cases h
  induction run generalizing c with
  | nil => exact .of_not_mem (by simpa using ne.symm)
  | @digit d rest h run ih =>
    have alone : Spaced before (isDigitOf radix) [c] := .of_not_mem (by simpa using ne.symm)
    exact alone.append (ih (digit d h) (other h))
  | @underscore d rest next run ih =>
    intro front back eq
    rcases front with _ | ⟨x, _ | ⟨y, front⟩⟩
    · exact absurd (List.cons.inj eq).1 ne
    · obtain ⟨rfl, tail⟩ := List.cons.inj eq
      obtain ⟨-, rfl⟩ := List.cons.inj tail
      exact ⟨⟨[], _, rfl, first⟩, next⟩
    · -- further underscores come after the digit
      obtain ⟨rfl, tail⟩ := List.cons.inj eq
      obtain ⟨rfl, later⟩ := List.cons.inj tail
      obtain ⟨ends, after⟩ := ih first ne (c :: front) back (congrArg (c :: ·) later)
      have some : front ≠ [] := by
        rintro rfl
        exact other next (List.cons.inj later).1
      exact ⟨(ends.of_cons some).append [c, '_'], after⟩

/-- Digits that begin with a digit have their underscores between digits. -/
theorem Run.spaced (run : Run radix digits) (first : nextIs (isDigitOf radix) digits) :
    Spaced (isDigitOf radix) (isDigitOf radix) digits := by
  cases run with
  | nil => cases first
  | @digit d rest h run =>
    refine run.spaced_cons (fun _ h => h) h ?_
    rintro rfl
    rw [not_isDigitOf_underscore] at h
    cases h
  | underscore =>
    rw [nextIs, not_isDigitOf_underscore] at first
    cases first

/-- Digits, or a point. -/
def digitOrPoint (digit : Char → Bool) (c : Char) : Bool := digit c || c == '.'

/-- Decimal digits do so all the more if a point is allowed in front of an underscore. -/
theorem Run.spaced_decimal (run : Run 10 digits) (first : nextIs Char.isDigit digits) :
    Spaced (digitOrPoint Char.isDigit) Char.isDigit digits := by
  rw [← isDigitOf_ten_eq] at first ⊢
  refine (run.spaced first).mono (fun c h => ?_) fun _ h => h
  rw [digitOrPoint, h]
  rfl

/-- After a point nothing is asked, so an underscore may come right after it. -/
theorem Fraction.spaced {fraction : List Char} (h : Fraction fraction) :
    Spaced (digitOrPoint Char.isDigit) Char.isDigit fraction := by
  cases h with
  | none => exact .of_not_mem List.not_mem_nil
  | point run =>
    rw [← isDigitOf_ten_eq]
    refine run.spaced_cons (fun d h => ?_) rfl (by decide)
    rw [digitOrPoint, h]
    rfl

/-- An exponent begins with a digit, after its letter and sign. -/
theorem Exponent.spaced {exponent : List Char} (h : Exponent exponent) :
    Spaced (digitOrPoint Char.isDigit) Char.isDigit exponent := by
  cases h with
  | none => exact .of_not_mem List.not_mem_nil
  | @unsigned e digits letter first run =>
    have alone : Spaced (digitOrPoint Char.isDigit) Char.isDigit [e] := by
      refine .of_not_mem ?_
      rcases letter with rfl | rfl <;> decide
    exact alone.append (run.spaced_decimal first)
  | @signed e sign digits letter isSign first run =>
    have alone : Spaced (digitOrPoint Char.isDigit) Char.isDigit [e, sign] := by
      refine .of_not_mem ?_
      rcases letter with rfl | rfl <;> rcases isSign with rfl | rfl <;> decide
    exact alone.append (run.spaced_decimal first)

/-- A number with a point or an exponent announces no radix. -/
theorem digitIn_of_isRealChar (chars : ∀ c ∈ literal, isRealChar c) :
    digitIn literal = Char.isDigit := by
  unfold digitIn
  split
  · exact absurd (chars 'x' (by simp)) (by decide)
  · exact absurd (chars 'X' (by simp)) (by decide)
  · rfl

/-- Digits of an announced radix are digits in the sense of the whole literal. -/
theorem digitIn_announced {letter : Char} (mem : (letter, radix) ∈ radixLetters)
    (h : isDigitOf radix c) : digitIn ('0' :: letter :: digits) c := by
  have cases : radix = 16 ∧ (letter = 'x' ∨ letter = 'X') ∨
      radix ≤ 10 ∧ letter ≠ 'x' ∧ letter ≠ 'X' := by
    have table : ∀ entry ∈ radixLetters, entry.2 = 16 ∧ (entry.1 = 'x' ∨ entry.1 = 'X') ∨
      entry.2 ≤ 10 ∧ entry.1 ≠ 'x' ∧ entry.1 ≠ 'X' := by decide
    exact table _ mem
  rcases cases with ⟨rfl, rfl | rfl⟩ | ⟨le, notSmall, notCapital⟩
  · exact h
  · exact h
  · simpa [digitIn, notSmall, notCapital] using isDigit_of_isDigitOf le h

/-- Underscores stand in front of digits, and after a digit or a point. -/
theorem Reading.spaced {context : Context} {step : Step} (reading : Reading context literal step) :
    Spaced (digitOrPoint (digitIn literal)) (digitIn literal) literal := by
  cases reading with
  | @announced letter radix digits mem first run =>
    have front : Spaced (digitOrPoint (digitIn ('0' :: letter :: digits)))
        (digitIn ('0' :: letter :: digits)) ['0', letter] := by
      refine .of_not_mem ?_
      have table : ∀ entry ∈ radixLetters, '_' ∉ ['0', entry.1] := by decide
      exact table _ mem
    refine front.append ((run.spaced first).mono (fun c h => ?_) fun c => digitIn_announced mem)
    rw [digitOrPoint, digitIn_announced mem h]
    rfl
  | plain first run =>
    rw [digitIn_of_isRealChar run.isRealChar]
    exact run.spaced_decimal first
  | @real whole fraction exponent run isFraction isExponent first ne =>
    rw [digitIn_of_isRealChar (run.isRealChar_append isFraction isExponent)]
    have wholeSpaced : Spaced (digitOrPoint Char.isDigit) Char.isDigit whole := by
      rcases first with first | ⟨rfl, -⟩
      · exact run.spaced_decimal first
      · exact .of_not_mem List.not_mem_nil
    exact (wholeSpaced.append isFraction.spaced).append isExponent.spaced

/-- A point is no digit, whatever the radix. -/
theorem not_digitIn_point (literal : List Char) : digitIn literal '.' = false := by
  unfold digitIn
  split <;> rfl

/-- Where underscores stand between digits, none comes after a point. -/
theorem not_infix_of_spaced (h : Spaced (digitIn literal) (digitIn literal) literal) :
    ¬['.', '_'] <:+: literal := by
  rintro ⟨front, back, eq⟩
  obtain ⟨⟨init, c, ends, digit⟩, -⟩ := h (front ++ ['.']) back (by simp [← eq])
  obtain ⟨-, same⟩ := List.append_inj' ends rfl
  rw [← (List.cons.inj same).1, not_digitIn_point] at digit
  cases digit

/-- Only a point can be wrong in front of an underscore. -/
theorem spaced_iff_of_spaced
    (h : Spaced (digitOrPoint (digitIn literal)) (digitIn literal) literal) :
    Spaced (digitIn literal) (digitIn literal) literal ↔ ¬['.', '_'] <:+: literal := by
  refine ⟨not_infix_of_spaced, fun none front back eq => ?_⟩
  obtain ⟨⟨init, c, ends, last⟩, next⟩ := h front back eq
  refine ⟨⟨init, c, ends, ?_⟩, next⟩
  rw [digitOrPoint, Bool.or_eq_true, beq_iff_eq] at last
  refine last.resolve_right ?_
  rintro rfl
  exact none ⟨init, back, by simp [eq, ends]⟩

end Number

/-! ## Numbers of a scan -/

/-- **Only a point comes wrongly before an underscore.** In the numbers of a source every underscore
is followed by a digit, and it comes after one as well, or after the point. So all underscores are
between digits just if none comes right after the point. -/
theorem Lexer.scan_underscores (settings : Settings) (source : List Char) (shift : Nat)
    (context : Context) : ∀ token ∈ (start settings source shift context).scan.tokens,
      token.kind.isNumber →
        let literal := token.span.slice shift source
        Spaced (Number.digitOrPoint (Number.digitIn literal)) (Number.digitIn literal) literal ∧
          (Spaced (Number.digitIn literal) (Number.digitIn literal) literal ↔
            ¬['.', '_'] <:+: literal) := by
  intro token mem isNumber literal
  obtain ⟨_, step, reading, -, -⟩ := (within_start context).number mem isNumber
  exact ⟨reading.spaced, Number.spaced_iff_of_spaced reading.spaced⟩

/-- In a hexadecimal number letters are digits. -/
theorem Lexer.scan_underscores_hexadecimal :
    ⟨.integer, ⟨0, 5⟩, .integer 160⟩ ∈ (start {} "0xa_0".toList 0 { mode := .code }).scan.tokens ∧
    Spaced (Number.digitOrPoint (isDigitOf 16)) (isDigitOf 16) "0xa_0".toList ∧
      (Spaced (isDigitOf 16) (isDigitOf 16) "0xa_0".toList ↔ ¬['.', '_'] <:+: "0xa_0".toList) := by
  have mem : ⟨.integer, ⟨0, 5⟩, .integer 160⟩ ∈
      (start {} "0xa_0".toList 0 { mode := .code }).scan.tokens := by
    obtain ⟨later, tokens⟩ := (start {} "0xa_0".toList 0 { mode := .code }).scan_tokens_eq
    rw [tokens, next_of_token rfl]
    exact List.mem_cons_self
  exact ⟨mem, scan_underscores {} "0xa_0".toList 0 { mode := .code } _ mem rfl⟩

/-- The first underscore after a point is taken into the number, though no digit is before it. -/
theorem Lexer.scan_takes_underscore_after_point :
    ∃ token ∈ (start {} "<?php 1._5".toList).scan.tokens, token.kind.isNumber ∧
      token.span.slice 0 "<?php 1._5".toList = "1._5".toList ∧
      ¬Spaced (Number.digitIn "1._5".toList) (Number.digitIn "1._5".toList) "1._5".toList := by
  have opening : (start {} "<?php 1._5".toList).step.token = some (.openTag, .none) := rfl
  have number : (start {} "<?php 1._5".toList).advance.step.token =
      some (.real, .real (RealLiteral.read "1._5".toList).value) := rfl
  obtain ⟨later, tokens⟩ := (start {} "<?php 1._5".toList).advance.scan_tokens_eq
  refine ⟨⟨.real, ⟨6, 4⟩, .real (RealLiteral.read "1._5".toList).value⟩, ?_, rfl, rfl, ?_⟩
  · rw [scan_of_token opening (by decide), tokens, next_of_token number]
    exact List.mem_cons_of_mem _ List.mem_cons_self
  · exact fun spaced => Number.not_infix_of_spaced spaced ⟨['1'], ['5'], rfl⟩

end PhpFrontEnd
