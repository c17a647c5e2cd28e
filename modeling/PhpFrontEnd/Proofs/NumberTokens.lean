import PhpFrontEnd.Proofs.Reports

/-!
# Where numbers come from

A number is read in code only, where a digit is next, or a point and a digit. So whatever else a
source has in it, the token of a number is made by the one step at a number (`Lexer.step_number`),
and what that step takes is written in one of three ways (`Number.Reading`): as an integer with a
letter that announces its radix, as an integer without, or with a point or an exponent.

What is found wrong with a number stands at its token, and nothing else stands there: tokens of
some length do not share their place (`Lexer.Within.maker`).
-/

namespace PhpFrontEnd

/-- Integers and reals. -/
def TokenKind.isNumber : TokenKind → Bool
  | .integer | .wideInteger | .real => true
  | _ => false

/-- The problems that were found at a place. -/
def Scan.errorsAt (scan : Scan) (span : Span) : List LexError :=
  (scan.diagnostics.filter (·.span = span)).map (·.error)

namespace Number

variable {context : Context} {text : List Char} {radix : Nat}

/-! ## How numbers are written -/

/-- The letters after a zero that announce a radix. -/
def radixLetters : List (Char × Nat) :=
  [('x', 16), ('X', 16), ('b', 2), ('B', 2), ('o', 8), ('O', 8)]

/-- Digits and underscores as they are taken one after the other: an underscore is taken if a digit
comes after it. Nothing is asked of what comes before the first of them. -/
inductive Run (radix : Nat) : List Char → Prop where
  | nil : Run radix []
  | digit {c : Char} {rest : List Char} (h : isDigitOf radix c) (run : Run radix rest) :
      Run radix (c :: rest)
  | underscore {d : Char} {rest : List Char} (next : isDigitOf radix d)
      (run : Run radix (d :: rest)) : Run radix ('_' :: d :: rest)

/-- A point and what is taken after it, or nothing. -/
inductive Fraction : List Char → Prop where
  | none : Fraction []
  | point {digits : List Char} (run : Run 10 digits) : Fraction ('.' :: digits)

/-- An exponent with a digit in it, or nothing. -/
inductive Exponent : List Char → Prop where
  | none : Exponent []
  | unsigned {e : Char} {digits : List Char} (letter : e = 'e' ∨ e = 'E')
      (first : nextIs Char.isDigit digits) (run : Run 10 digits) : Exponent (e :: digits)
  | signed {e sign : Char} {digits : List Char} (letter : e = 'e' ∨ e = 'E')
      (isSign : sign = '+' ∨ sign = '-') (first : nextIs Char.isDigit digits)
      (run : Run 10 digits) : Exponent (e :: sign :: digits)

/-- The three ways in which a number is written, with what the step at it does. -/
inductive Reading (context : Context) : List Char → Step → Prop where
  | announced {letter : Char} {radix : Nat} {digits : List Char}
      (mem : (letter, radix) ∈ radixLetters) (first : nextIs (isDigitOf radix) digits)
      (run : Run radix digits) :
      Reading context ('0' :: letter :: digits)
        (emitInteger context radix ('0' :: letter :: digits) digits)
  | plain {digits : List Char} (first : nextIs Char.isDigit digits) (run : Run 10 digits) :
      Reading context digits (emitPlain context digits)
  /-- A number without a whole part has a digit after its point. -/
  | real {whole fraction exponent : List Char} (run : Run 10 whole)
      (isFraction : Fraction fraction) (isExponent : Exponent exponent)
      (first : nextIs Char.isDigit whole ∨ whole = [] ∧ nextIs Char.isDigit (fraction.drop 1))
      (ne : fraction ++ exponent ≠ []) :
      Reading context (whole ++ fraction ++ exponent)
        (emitReal context (whole ++ fraction ++ exponent))

/-- What is taken as digits is a run of them. -/
theorem run_take (radix : Nat) (text : List Char) :
    Run radix (text.take (digitsLength radix text)) := by
  induction text with
  | nil => exact .nil
  | cons c rest ih =>
    rw [digitsLength]
    split
    · rename_i taken
      rw [List.take_succ_cons]
      by_cases digit : isDigitOf radix c
      · exact .digit digit ih
      · obtain ⟨underscore, next⟩ : c = '_' ∧ nextIs (isDigitOf radix) rest := by
          simpa [digit] using taken
        -- the digit that comes after it is taken too
        have pos := digitsLength_pos next
        obtain ⟨n, length⟩ := Nat.exists_eq_succ_of_ne_zero (Nat.ne_of_gt pos)
        rcases rest with _ | ⟨d, later⟩
        · cases next
        rw [length] at ih ⊢
        rw [underscore]
        exact .underscore next ih
    · exact .nil

theorem nextIs_take {p : Char → Bool} {n : Nat} (pos : 0 < n) :
    nextIs p (text.take n) = nextIs p text := by
  rcases text with _ | ⟨c, rest⟩
  · rw [List.take_nil]
  · obtain ⟨m, rfl⟩ := Nat.exists_eq_succ_of_ne_zero (Nat.ne_of_gt pos)
    rfl

/-- What is taken begins with a digit if the text does. -/
theorem nextIs_take_digitsLength (h : nextIs (isDigitOf radix) text) :
    nextIs (isDigitOf radix) (text.take (digitsLength radix text)) := by
  rw [nextIs_take (digitsLength_pos h)]
  exact h

/-- The digits of radixes up to ten are decimal ones. -/
theorem isDigit_of_isDigitOf {c : Char} (le : radix ≤ 10) (h : isDigitOf radix c) : c.isDigit := by
  obtain ⟨d, value⟩ := Option.isSome_iff_exists.1 h
  have lt := IntegerLiteral.digitValue?_lt value
  obtain ⟨value, -⟩ := Option.filter_eq_some_iff.1 value
  -- letters count from ten on
  split at value
  · assumption
  · split at value
    · have := Option.some.inj value
      omega
    · split at value
      · have := Option.some.inj value
        omega
      · cases value

theorem isDigitOf_ten_eq : isDigitOf 10 = Char.isDigit :=
  funext fun _ => Bool.eq_iff_iff.2 ⟨isDigit_of_isDigitOf (Nat.le_refl _), isDigitOf_ten⟩

/-! ## The characters of a number -/

/-- Nothing but digits and underscores is in a run. -/
theorem Run.mem {digits : List Char} (run : Run radix digits) :
    ∀ c ∈ digits, isDigitOf radix c ∨ c = '_' := by
  induction run with
  | nil => exact fun _ mem => absurd mem List.not_mem_nil
  | digit h run ih => exact List.forall_mem_cons.2 ⟨.inl h, ih⟩
  | underscore next run ih => exact List.forall_mem_cons.2 ⟨.inr rfl, ih⟩

/-- The characters of numbers without a letter that announces a radix. -/
def isRealChar (c : Char) : Bool :=
  c.isDigit || c == '_' || c == '.' || c == 'e' || c == 'E' || c == '+' || c == '-'

/-- The characters of decimal digits may stand in a real number. -/
theorem Run.isRealChar {digits : List Char} (run : Run 10 digits) :
    ∀ c ∈ digits, isRealChar c := by
  intro c mem
  have h := run.mem c mem
  rw [isDigitOf_ten_eq] at h
  simp only [Number.isRealChar, Bool.or_eq_true, beq_iff_eq]
  tauto

theorem Fraction.isRealChar {fraction : List Char} (h : Fraction fraction) :
    ∀ c ∈ fraction, isRealChar c := by
  cases h with
  | none => exact fun _ mem => absurd mem List.not_mem_nil
  | point run => exact List.forall_mem_cons.2 ⟨rfl, run.isRealChar⟩

theorem Exponent.isRealChar {exponent : List Char} (h : Exponent exponent) :
    ∀ c ∈ exponent, isRealChar c := by
  cases h with
  | none => exact fun _ mem => absurd mem List.not_mem_nil
  | unsigned letter first run =>
    refine List.forall_mem_cons.2 ⟨?_, run.isRealChar⟩
    rcases letter with rfl | rfl <;> rfl
  | signed letter isSign first run =>
    refine List.forall_mem_cons.2 ⟨?_, List.forall_mem_cons.2 ⟨?_, run.isRealChar⟩⟩
    · rcases letter with rfl | rfl <;> rfl
    · rcases isSign with rfl | rfl <;> rfl

/-- A number with a point or an exponent has no letters but that of its exponent. -/
theorem Run.isRealChar_append {whole fraction exponent : List Char} (run : Run 10 whole)
    (isFraction : Fraction fraction) (isExponent : Exponent exponent) :
    ∀ c ∈ whole ++ fraction ++ exponent, Number.isRealChar c :=
  List.forall_mem_append.2
    ⟨List.forall_mem_append.2 ⟨run.isRealChar, isFraction.isRealChar⟩, isExponent.isRealChar⟩

/-! ## What the step at a number does -/

/-- A radix is announced by a zero, its letter and a digit of it. -/
theorem announcedRadix?_eq {radix : Nat} (h : announcedRadix? text = some radix) :
    ∃ letter rest, text = '0' :: letter :: rest ∧ (letter, radix) ∈ radixLetters ∧
      nextIs (isDigitOf radix) rest := by
  unfold announcedRadix? at h
  split at h
  · rename_i letter rest
    refine ⟨letter, rest, rfl, ?_⟩
    split at h
    · rename_i hexadecimal
      rw [Bool.and_eq_true, Bool.or_eq_true, beq_iff_eq, beq_iff_eq] at hexadecimal
      obtain ⟨rfl | rfl, next⟩ := hexadecimal <;> cases h <;> exact ⟨by decide, next⟩
    · split at h
      · rename_i binary
        rw [Bool.and_eq_true, Bool.or_eq_true, beq_iff_eq, beq_iff_eq] at binary
        obtain ⟨rfl | rfl, next⟩ := binary <;> cases h <;> exact ⟨by decide, next⟩
      · split at h
        · rename_i octal
          rw [Bool.and_eq_true, Bool.or_eq_true, beq_iff_eq, beq_iff_eq] at octal
          obtain ⟨rfl | rfl, next⟩ := octal <;> cases h <;> exact ⟨by decide, next⟩
        · cases h
  · cases h

/-- What is taken as a fraction is one. -/
theorem fraction_take (text : List Char) : Fraction (text.take (fractionLength text)) := by
  unfold fractionLength
  split
  · rw [List.take_succ_cons]
    exact .point (run_take 10 _)
  · exact .none

/-- What is taken as an exponent is one. -/
theorem exponent_take (text : List Char) : Exponent (text.take (exponentLength text)) := by
  unfold exponentLength
  split
  · rename_i e rest
    split
    · rename_i letter
      rw [Bool.or_eq_true, beq_iff_eq, beq_iff_eq] at letter
      split
      · exact .none
      · rename_i sign digits
        split
        · rename_i signed
          rw [Bool.and_eq_true, Bool.or_eq_true, beq_iff_eq, beq_iff_eq] at signed
          obtain ⟨isSign, first⟩ := signed
          rw [List.take_succ_cons, List.take_succ_cons]
          rw [← isDigitOf_ten_eq] at first
          refine .signed letter isSign ?_ (run_take 10 digits)
          rw [← isDigitOf_ten_eq]
          exact nextIs_take_digitsLength first
        · split
          · rename_i first
            have next : nextIs (isDigitOf 10) (sign :: digits) := isDigitOf_ten first
            rw [List.take_succ_cons]
            refine .unsigned letter ?_ (run_take 10 _)
            rw [← isDigitOf_ten_eq]
            exact nextIs_take_digitsLength next
          · exact .none
    · exact .none
  · exact .none

/-- A number begins at a digit, or at a point with a digit after it. -/
theorem beginsAt_iff : beginsAt text ↔
    nextIs Char.isDigit text ∨ ∃ rest, text = '.' :: rest ∧ nextIs Char.isDigit rest := by
  rcases text with _ | ⟨c, rest⟩
  · simp [beginsAt, nextIs]
  · simp only [beginsAt, nextIs, Bool.or_eq_true, Bool.and_eq_true, beq_iff_eq, List.cons.injEq]
    constructor
    · rintro (digit | ⟨point, next⟩)
      · exact .inl digit
      · exact .inr ⟨rest, ⟨point, rfl⟩, next⟩
    · rintro (digit | ⟨_, ⟨point, rfl⟩, next⟩)
      · exact .inl digit
      · exact .inr ⟨point, next⟩

theorem digitsLength_point (rest : List Char) : digitsLength 10 ('.' :: rest) = 0 := by
  rw [digitsLength]
  rfl

/-- What has a length of its own is nothing only if that length is zero. -/
theorem eq_zero_of_take_eq_nil {length : List Char → Nat} (nil : length [] = 0)
    (h : text.take (length text) = []) : length text = 0 := by
  rcases List.take_eq_nil_iff.1 h with zero | rfl
  · exact zero
  · exact nil

/-- The step at a number reads it in one of the three ways. -/
theorem exists_reading (context : Context) (begins : beginsAt text) :
    ∃ literal, literal <+: text ∧ Reading context literal (Number.step context text) := by
  rw [Number.step]
  split
  · rename_i radix announced
    obtain ⟨letter, rest, rfl, mem, next⟩ := announcedRadix?_eq announced
    refine ⟨'0' :: letter :: rest.take (digitsLength radix rest), ?_, ?_⟩
    · exact (List.prefix_cons_inj _).2 ((List.prefix_cons_inj _).2 (List.take_prefix _ _))
    · exact .announced mem (nextIs_take_digitsLength next) (run_take radix rest)
  · dsimp only
    generalize isFraction : fractionLength (text.drop (digitsLength 10 text)) = fraction
    generalize isExponent : exponentLength (text.drop (digitsLength 10 text + fraction)) = exponent
    refine ⟨text.take (digitsLength 10 text + fraction + exponent), List.take_prefix _ _, ?_⟩
    have first : nextIs Char.isDigit (text.take (digitsLength 10 text)) ∨
        text.take (digitsLength 10 text) = [] ∧
          nextIs Char.isDigit (((text.drop (digitsLength 10 text)).take fraction).drop 1) := by
      rw [← isFraction, ← isDigitOf_ten_eq]
      rcases beginsAt_iff.1 begins with first | ⟨rest, rfl, next⟩
      · rw [← isDigitOf_ten_eq] at first
        exact .inl (nextIs_take_digitsLength first)
      · rw [← isDigitOf_ten_eq] at next
        rw [digitsLength_point]
        exact .inr ⟨rfl, nextIs_take_digitsLength next⟩
    split
    · rename_i none
      obtain ⟨rfl, rfl⟩ := Nat.add_eq_zero_iff.1 none
      refine .plain (first.resolve_right ?_) (run_take 10 text)
      -- nothing is left of a fraction
      rintro ⟨-, digit⟩
      cases digit
    · rename_i some
      rw [List.take_add, List.take_add]
      refine .real (run_take 10 text) (isFraction ▸ fraction_take _)
        (isExponent ▸ exponent_take _) first fun nil => some ?_
      obtain ⟨fraction, exponent⟩ := List.append_eq_nil_iff.1 nil
      rw [← isFraction] at fraction
      rw [← isExponent] at exponent
      rw [← isFraction, ← isExponent, eq_zero_of_take_eq_nil rfl fraction,
        eq_zero_of_take_eq_nil rfl exponent]

namespace Reading

variable {literal : List Char} {step : Step}

/-- A literal that is read is made into a number. -/
theorem makes (h : Reading context literal step) : Makes context literal step := by
  cases h with
  | @announced letter radix digits mem =>
    have radixes : radix ∈ [2, 8, 10, 16] := by
      have : ∀ entry ∈ radixLetters, entry.2 ∈ [2, 8, 10, 16] := by decide
      exact this _ mem
    exact makes_emitInteger context radixes _ digits [] (by simp)
  | plain => exact makes_emitPlain ..
  | real => exact .real

/-- A number takes its literal and nothing else. -/
theorem length_eq (h : Reading context literal step) : step.length = literal.length :=
  h.makes.length_eq

theorem literal_ne_nil (h : Reading context literal step) : literal ≠ [] := by
  cases h with
  | announced => exact List.cons_ne_nil _ _
  | plain first =>
    rintro rfl
    cases first
  | real run isFraction isExponent first ne =>
    intro nil
    rw [List.append_assoc] at nil
    exact ne (List.append_eq_nil_iff.1 nil).2

end Reading

end Number

/-! ## Which steps make numbers -/

/-- A step whose token, if it makes one, is no number. -/
def Step.MakesNoNumber (step : Step) : Prop :=
  ∀ kind value, step.token = some (kind, value) → kind.isNumber = false

/-- A token of another kind is no number. -/
theorem Step.makesNoNumber_of_token {step : Step} {kind : TokenKind} {value : TokenValue}
    (token : step.token = some (kind, value)) (h : kind.isNumber = false) :
    step.MakesNoNumber := by
  intro other otherValue made
  obtain ⟨rfl, -⟩ := Step.token_inj token made
  exact h

/-- A step that makes no number, unless it is the step at one. -/
inductive Step.Numbers (context : Context) (text : List Char) : Step → Prop where
  | none {step : Step} (h : step.MakesNoNumber) : Numbers context text step
  | number (begins : Number.beginsAt text) : Numbers context text (Number.step context text)

namespace Code

variable {settings : Settings} {context : Context} {text : List Char} {start : Nat}

/-- In code numbers come from the step at a number. -/
theorem AtCode.numbers {step : Step} (h : AtCode settings context start text step) :
    step.Numbers context text := by
  cases h with
  | attributeOpen | lineComment | closeTag | separator | backquote | cast | whitespace | dollar =>
    exact .none (Step.makesNoNumber_of_token rfl rfl)
  | blockComment comment =>
    cases comment with
    | plain | doc => exact .none (Step.makesNoNumber_of_token rfl rfl)
  | quote _ quoted =>
    cases quoted with
    | closed | single | double => exact .none (Step.makesNoNumber_of_token rfl rfl)
  | heredoc _ opening =>
    obtain ⟨label, -, rfl⟩ := Option.map_eq_some_iff.1 opening
    exact .none (Step.makesNoNumber_of_token rfl rfl)
  | number front => exact .number front
  | name _ named =>
    cases named with
    | word isWord =>
      refine .none (Step.makesNoNumber_of_token rfl ?_)
      obtain rfl | ⟨keyword, rfl⟩ := isWord <;> rfl
    | yieldFrom => exact .none (Step.makesNoNumber_of_token rfl rfl)
  | mark marked =>
    cases marked with
    | mark => exact .none (Step.makesNoNumber_of_token (token_afterMark ..) rfl)
    | bad => exact .none (Step.makesNoNumber_of_token rfl rfl)

end Code

/-! ## Lexers -/

/-- Numbers are read in code. -/
theorem Mode.reads_isNumber {mode : Mode} {kind : TokenKind} (number : kind.isNumber)
    (h : mode.reads kind) : mode = .code := by
  cases kind <;> cases number <;> cases mode <;> first | rfl | cases h

/-- Numbers are read in code only. -/
theorem Context.Turn.mode_of_isNumber {context after : Context} {kind : TokenKind}
    {changes : List ModeChange} (turn : context.Turn kind changes after)
    (number : kind.isNumber) : context.mode = .code := by
  cases turn with
  | stays doc h => exact Mode.reads_isNumber number h
  | enters h =>
    rcases eq : context.mode <;> rw [eq] at h <;> cases kind <;> cases number <;> cases h
  | opens doc h => cases kind <;> cases number <;> cases h
  | closes doc h =>
    rcases eq : context.mode <;> rw [eq] at h <;> cases kind <;> cases number <;> cases h
  | unmatched doc code => exact code
  | names h => cases number

namespace Lexer

variable {lexer : Lexer} {settings : Settings} {source : List Char} {shift : Nat}
  {kind : TokenKind} {value : TokenValue}

/-- The token of a number is made by the step at a number. -/
theorem step_number (token : lexer.step.token = some (kind, value)) (number : kind.isNumber) :
    Number.beginsAt lexer.rest ∧ lexer.step = Number.step lexer.context lexer.rest := by
  have ne : lexer.rest ≠ [] := by
    intro nil
    obtain ⟨rfl, -⟩ := Step.token_inj token (step_token_of_rest_eq_nil nil)
    cases number
  have code : lexer.context.mode = .code := by
    cases step_move ne with
    | token made pos le turn =>
      obtain ⟨rfl, -⟩ := Step.token_inj token made
      exact turn.mode_of_isNumber number
    | opensBody code => exact code
    | closesBody mode made =>
      obtain ⟨rfl, -⟩ := Step.token_inj token made
      cases number
    | reachesLabel body held le front indent made =>
      rcases made with ⟨none, -⟩ | ⟨run, made, -⟩
      · rw [none] at token
        cases token
      · obtain ⟨rfl, -⟩ := Step.token_inj token made
        cases number
    | leaves free none | looksOn mode none =>
      rw [none] at token
      cases token
  have numbers : lexer.step.Numbers lexer.context lexer.rest := by
    rw [step_eq ne, code]
    exact (Code.atCode _ _ _ ne).numbers
  generalize lexer.step = step at token numbers
  cases numbers with
  | none h => exact absurd number (by rw [h kind value token]; exact Bool.false_ne_true)
  | number begins => exact ⟨begins, rfl⟩

/-- The problems of a scan are those of its first step and those that come later. -/
theorem scan_diagnostics (ne : lexer.rest ≠ []) :
    lexer.scan.diagnostics = lexer.found ++ lexer.advance.scan.diagnostics := by
  rcases token : lexer.step.token with _ | ⟨kind, value⟩
  · rw [scan_of_silent token]
  · rw [scan_of_token token ((step_move ne).ne_endOfSource token)]

/-- Nothing is found in front of a lexer. -/
theorem offset_le_of_mem_diagnostics (lexer : Lexer) :
    ∀ d ∈ lexer.scan.diagnostics, lexer.offset ≤ d.span.start := by
  induction lexer using step_induction with
  | nil lexer nil =>
    rw [scan_of_nil nil]
    exact fun _ mem => absurd mem List.not_mem_nil
  | step lexer ne ih =>
    rw [scan_diagnostics ne]
    intro d mem
    rcases List.mem_append.1 mem with mem | mem
    · obtain ⟨e, -, rfl⟩ := List.mem_map.1 mem
      exact Nat.le_refl _
    · exact Nat.le_trans (Nat.le_add_right _ _) (ih d mem)

theorem errorsAt_of_lt {span : Span} (lt : span.start < lexer.offset) :
    lexer.scan.errorsAt span = [] := by
  refine List.map_eq_nil_iff.2 (List.filter_eq_nil_iff.2 fun d mem same => ?_)
  have le := lexer.offset_le_of_mem_diagnostics d mem
  rw [of_decide_eq_true same] at le
  exact Nat.not_le_of_lt lt le

/-- What is found at the place of the first step. -/
theorem errorsAt_span (ne : lexer.rest ≠ []) (pos : 0 < lexer.step.length) :
    lexer.scan.errorsAt lexer.span = lexer.step.errors := by
  have later : lexer.advance.scan.errorsAt lexer.span = [] :=
    errorsAt_of_lt (Nat.lt_add_of_pos_right pos)
  have first : lexer.found.filter (·.span = lexer.span) = lexer.found := by
    refine List.filter_eq_self.2 fun d mem => ?_
    obtain ⟨e, -, rfl⟩ := List.mem_map.1 mem
    exact decide_eq_true rfl
  rw [Scan.errorsAt] at later ⊢
  rw [scan_diagnostics ne, List.filter_append, List.map_append, later, first, List.append_nil,
    found, List.map_map]
  exact List.map_id _

/-- What is found at another place is found later. -/
theorem errorsAt_of_ne {span : Span} (ne : lexer.rest ≠ []) (other : lexer.span ≠ span) :
    lexer.scan.errorsAt span = lexer.advance.scan.errorsAt span := by
  have first : lexer.found.filter (·.span = span) = [] := by
    refine List.filter_eq_nil_iff.2 fun d mem same => other ?_
    obtain ⟨e, -, rfl⟩ := List.mem_map.1 mem
    exact of_decide_eq_true same
  rw [Scan.errorsAt, scan_diagnostics ne, List.filter_append, first]
  rfl

/-- A lexer makes a token of a scan, and what the scan finds there is what its step finds. -/
structure Makes (maker : Lexer) (token : Token) (scan : Scan) : Prop where
  token_eq : maker.step.token = some (token.kind, token.value)
  span_eq : maker.span = token.span
  /-- Tokens without length may share their place with others. -/
  errors_eq : 0 < token.span.length → scan.errorsAt token.span = maker.step.errors

/-- Every token of a scan is made by some lexer on the way. -/
theorem Within.maker (within : lexer.Within settings source shift) :
    ∀ token ∈ lexer.scan.tokens, ∃ maker : Lexer, maker.Within settings source shift ∧
      lexer.offset ≤ maker.offset ∧ maker.Makes token lexer.scan := by
  induction lexer using step_induction with
  | nil lexer nil =>
    rw [scan_of_nil nil]
    intro token mem
    rw [List.mem_singleton.1 mem]
    refine ⟨lexer, within, Nat.le_refl _, step_token_of_rest_eq_nil nil, ?_, ?_⟩
    · obtain ⟨settings, rest, offset, lineStart, context⟩ := lexer
      cases nil
      rfl
    · exact fun pos => absurd pos (Nat.lt_irrefl 0)
  | step lexer ne ih =>
    intro token mem
    have later (mem : token ∈ lexer.advance.scan.tokens) : ∃ maker : Lexer,
        maker.Within settings source shift ∧ lexer.offset ≤ maker.offset ∧
          maker.Makes token lexer.scan := by
      obtain ⟨maker, makerWithin, le, made⟩ := ih within.advance token mem
      have past : lexer.offset + lexer.step.length ≤ maker.offset := le
      refine ⟨maker, makerWithin, by omega, made.token_eq, made.span_eq, fun pos => ?_⟩
      rw [errorsAt_of_ne ne, made.errors_eq pos]
      -- the first step lies before the maker, or takes nothing
      intro same
      have start := congrArg Span.start (made.span_eq.trans same.symm)
      have length := congrArg Span.length same
      change maker.offset = lexer.offset at start
      change lexer.step.length = token.span.length at length
      omega
    rcases made : lexer.step.token with _ | ⟨kind, value⟩
    · rw [scan_of_silent made] at mem
      exact later mem
    · rw [scan_of_token made ((step_move ne).ne_endOfSource made)] at mem
      rcases List.mem_cons.1 mem with rfl | mem
      · exact ⟨lexer, within, Nat.le_refl _, made, rfl, errorsAt_span ne⟩
      · exact later mem

/-- **A number is what is written.** Wherever a source has the token of a number, the token, its
value and all that is found at its place come from reading the characters that it takes, and they
are written in one of three ways. -/
theorem Within.number (within : lexer.Within settings source shift) {token : Token}
    (mem : token ∈ lexer.scan.tokens) (number : token.kind.isNumber) :
    ∃ context step, Number.Reading context (token.span.slice shift source) step ∧
      step.token = some (token.kind, token.value) ∧
      lexer.scan.errorsAt token.span = step.errors := by
  obtain ⟨maker, makerWithin, -, made⟩ := within.maker token mem
  obtain ⟨begins, eq⟩ := maker.step_number made.token_eq number
  obtain ⟨literal, front, reading⟩ := Number.exists_reading maker.context begins
  rw [← eq] at reading
  have slice : token.span.slice shift source = literal := by
    calc
      token.span.slice shift source = maker.rest.take maker.step.length := by
        rw [← made.span_eq, makerWithin.rest_eq]
        rfl
      _ = literal := by rw [reading.length_eq, ← List.prefix_iff_eq_take.1 front]
  have pos : 0 < token.span.length := by
    rw [← made.span_eq, span, reading.length_eq]
    exact List.length_pos_iff.2 reading.literal_ne_nil
  exact ⟨maker.context, maker.step, slice ▸ reading, made.token_eq, made.errors_eq pos⟩

end Lexer

end PhpFrontEnd
