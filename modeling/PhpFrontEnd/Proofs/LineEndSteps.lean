import Mathlib.Logic.Basic
import PhpFrontEnd.Proofs.LineEnds

/-!
# Steps over other line ends

A step over a text and one over the text with other line ends do the same if they take the same of
it, make tokens of one kind and find problems of one kind, and if what is remembered differs in
texts of the source at most: `Step.Alike`. Values of tokens and wordings of problems do not count,
for they quote the source with its line ends.

This module has the steps in markup, at numbers and at interpolations. Where a line end is looked
for, the text must have no carriage returns of its own: one that stands by itself is a line end,
and in front of another carriage return it would stay one.
-/

namespace PhpFrontEnd

/-! ## Steps that correspond -/

/-- The kinds of problems, without what they tell of the text. -/
inductive LexError.Variant where
  | unexpectedCharacter | heredocIndentation | invalidNumber | unterminatedComment | integerTooBig
  | realTooBig | invalidCodePoint
  deriving DecidableEq

def LexError.variant : LexError → LexError.Variant
  | .unexpectedCharacter _ => .unexpectedCharacter
  | .heredocIndentation => .heredocIndentation
  | .invalidNumber _ => .invalidNumber
  | .unterminatedComment _ => .unterminatedComment
  | .integerTooBig _ => .integerTooBig
  | .realTooBig _ => .realTooBig
  | .invalidCodePoint _ => .invalidCodePoint

/-- Contexts that differ in the pending documentation comment at most. The label that they hold has
no line end in it. -/
structure Context.Alike (a b : Context) : Prop where
  mode : b.mode = a.mode
  enclosing : b.enclosing = a.enclosing
  label : b.label = a.label
  isLabel : ∀ label, a.label = some label → ∀ c ∈ label.toList, isLabelPart c

/-- A step at a text, and one at the text with other line ends that does the same. -/
structure Step.Alike (text : List Char) (a b : Step) : Prop where
  takes : Takes text a.length b.length
  kind : b.token.map Prod.fst = a.token.map Prod.fst
  context : a.context.Alike b.context
  variants : b.errors.map LexError.variant = a.errors.map LexError.variant

namespace Context.Alike

variable {a b : Context}

/-- Both lexers enter the same mode. -/
theorem push (h : a.Alike b) (mode : Mode) : (a.push mode).Alike (b.push mode) :=
  ⟨rfl, congrArg₂ List.cons h.mode h.enclosing, h.label, h.isLabel⟩

theorem enter (h : a.Alike b) (mode : Mode) : (a.enter mode).Alike (b.enter mode) :=
  ⟨rfl, h.enclosing, h.label, h.isLabel⟩

/-- A documentation comment may differ, since its place and its text do. -/
theorem withDoc (h : a.Alike b) (doc doc' : Option DocComment) :
    { a with doc }.Alike { b with doc := doc' } :=
  ⟨h.mode, h.enclosing, h.label, h.isLabel⟩

theorem dropDoc (h : a.Alike b) : a.dropDoc.Alike b.dropDoc := h.withDoc none none

/-- What is returned to is the same. -/
theorem pop (h : a.Alike b) : a.pop.Alike b.pop := by
  unfold Context.pop
  rw [h.enclosing]
  cases a.enclosing with
  | nil => exact ⟨rfl, rfl, h.label, h.isLabel⟩
  | cons mode enclosing => exact ⟨rfl, rfl, h.label, h.isLabel⟩

/-- The modes change alike. -/
theorem change (h : a.Alike b) (change : ModeChange) :
    (a.change change).Alike (b.change change) := by
  cases change with
  | push inner => exact h.push inner
  | pop => exact h.pop
  | enter mode => exact h.enter mode

/-- A label has no line end, so the same one is held. -/
theorem withLabel (h : a.Alike b) {label : List Char} (isLabel : ∀ c ∈ label, isLabelPart c) :
    { a with label := some (String.ofList label) }.Alike
      { b with label := some (String.ofList label) } := by
  refine ⟨h.mode, h.enclosing, rfl, fun held eq => ?_⟩
  rw [← Option.some.inj eq, String.toList_ofList]
  exact isLabel

theorem forgetLabel (h : a.Alike b) : { a with label := none }.Alike { b with label := none } :=
  ⟨h.mode, h.enclosing, rfl, nofun⟩

end Context.Alike

/-- Steps that do the same do so after a change of modes. -/
theorem Step.Alike.change {text : List Char} {a b : Step} (h : a.Alike text b)
    (change : ModeChange) : (a.change change).Alike text (b.change change) :=
  ⟨h.takes, h.kind, h.context.change change, h.variants⟩

variable {a b : Context} {text : List Char} {m n : Nat} {c : Char}

/-! ## Markup -/

/-- Every opening tag begins with `<?`. -/
theorem openTagAt?_eq_none (settings : Settings) (h : ¬['<', '?'] <+: text) :
    Markup.openTagAt? settings text = none := by
  unfold Markup.openTagAt?
  split
  · exact absurd ⟨_, rfl⟩ h
  · rfl

theorem not_mem_drop (h : c ∉ text) (n : Nat) : c ∉ text.drop n :=
  fun mem => h (List.mem_of_mem_drop mem)

/-- The long opening tag by what comes after its word, and what there is if it is none. -/
def Markup.longTag? (short : Option (TokenKind × Nat)) (after : List Char) :
    Option (TokenKind × Nat) :=
  match after with
  | [] => some (.openTag, 5)
  | '\r' :: '\n' :: _ => some (.openTag, 7)
  | c :: _ => if isBlank c then some (.openTag, 6) else short

/-- A character other than a carriage return is the whole of the blank behind the long opening
tag. -/
theorem Markup.longTag?_cons (short : Option (TokenKind × Nat)) (h : c ≠ '\r') (text : List Char) :
    longTag? short (c :: text) = if isBlank c then some (.openTag, 6) else short := by
  unfold longTag?
  split
  · rename_i eq
    cases eq
  · rename_i eq
    exact absurd (List.cons.inj eq).1 h
  · rename_i eq
    rw [(List.cons.inj eq).1]

/-- Opening tags that take the same of both texts. -/
def Markup.SameTag (text : List Char) (tag tag' : TokenKind × Nat) : Prop :=
  tag'.1 = tag.1 ∧ Takes text tag.2 tag'.2

/-- The long opening tag takes the line end behind it along, which has one or two characters. -/
theorem Markup.longTag?_crlf {short : Option (TokenKind × Nat)} (noReturn : '\r' ∉ text)
    {whole : List Char} (same : Option.Rel (SameTag whole) short short)
    (takes : ∀ {m n}, Takes text m n → Takes whole (5 + m) (5 + n)) :
    Option.Rel (SameTag whole) (longTag? short text) (longTag? short (crlf text)) := by
  induction text using crlf_induction with
  | nil => exact .some ⟨rfl, takes (.none _)⟩
  | newline text _ =>
    rw [crlf_newline]
    exact .some ⟨rfl, takes (.newline (.none _))⟩
  | char c text ne _ =>
    have other : c ≠ '\r' := fun eq => noReturn (eq ▸ List.mem_cons_self)
    rw [crlf_cons ne, longTag?_cons short other, longTag?_cons short other]
    refine rel_ite Iff.rfl (fun _ => ?_) fun _ => same
    exact .some ⟨rfl, takes (.char ne (.none _))⟩

/-- The opening tags, with the long one as a case of its own. -/
theorem Markup.openTagAt?_eq (settings : Settings) (rest : List Char) :
    openTagAt? settings ('<' :: '?' :: rest) =
      if nextIs (· == '=') rest then some (.openTagWithEcho, 3)
      else if startsWithIgnoringCase ['p', 'h', 'p'] rest then
        longTag? (if settings.shortTags then some (.openTag, 2) else none) (rest.drop 3)
      else if settings.shortTags then some (.openTag, 2) else none :=
  rfl

/-- The same opening tag is in front of both texts. -/
theorem Markup.openTagAt?_crlf (settings : Settings) (noReturn : '\r' ∉ text) :
    Option.Rel (SameTag text) (openTagAt? settings text) (openTagAt? settings (crlf text)) := by
  by_cases front : ['<', '?'] <+: text
  · obtain ⟨rest, rfl⟩ := front
    rw [List.cons_append, List.singleton_append] at noReturn ⊢
    have takes {m n : Nat} (h : Takes rest m n) : Takes ('<' :: '?' :: rest) (m + 2) (n + 2) :=
      (h.char (by decide)).char (by decide)
    have short : Option.Rel (SameTag ('<' :: '?' :: rest))
        (if settings.shortTags then some (.openTag, 2) else none)
        (if settings.shortTags then some (.openTag, 2) else none) :=
      rel_ite Iff.rfl (fun _ => .some ⟨rfl, takes (.none rest)⟩) fun _ => .none
    rw [crlf_cons (by decide), crlf_cons (by decide), openTagAt?_eq, openTagAt?_eq]
    refine rel_ite (by rw [nextIs_crlf rfl])
      (fun echo => .some ⟨rfl, takes (.next echo rfl)⟩) fun _ => ?_
    refine rel_ite (by rw [startsWithIgnoringCase_crlf (by decide)]) (fun php => ?_) fun _ => short
    have word : Takes rest 3 3 := .of_startsWith (by decide) php
    have noReturn' : '\r' ∉ rest := fun mem =>
      noReturn (List.mem_cons_of_mem _ (List.mem_cons_of_mem _ mem))
    rw [word.drop_eq]
    refine longTag?_crlf (not_mem_drop noReturn' 3) short fun {m n} after => ?_
    have all := takes (word.add after)
    rwa [Nat.add_right_comm 3 m, Nat.add_right_comm 3 n] at all
  · rw [openTagAt?_eq_none settings front, openTagAt?_eq_none settings
      (mt (isPrefix_crlf_iff (by decide)).1 front)]
    exact .none

/-- Both texts have the same markup in front. -/
theorem Markup.textLength_crlf (settings : Settings) (noReturn : '\r' ∉ text) :
    Takes text (textLength settings text) (textLength settings (crlf text)) := by
  induction text using crlf_induction with
  | nil => exact .none []
  | newline text ih =>
    rw [crlf_newline]
    exact (ih fun mem => noReturn (List.mem_cons_of_mem _ mem)).newline
  | char c text ne ih =>
    have tag := openTagAt?_crlf settings noReturn
    rw [crlf_cons ne] at tag ⊢
    refine rel_ite (by rw [isSome_of_rel tag]) (fun _ => .none _) fun _ => ?_
    exact (ih fun mem => noReturn (List.mem_cons_of_mem _ mem)).char ne

/-- Outside of code the same is read with either line ends. -/
theorem Markup.step_crlf (settings : Settings) (h : a.Alike b) (noReturn : '\r' ∉ text) :
    (step settings a text).Alike text (step settings b (crlf text)) := by
  have tag := openTagAt?_crlf settings noReturn
  unfold step
  generalize openTagAt? settings text = tag?, openTagAt? settings (crlf text) = tag?' at tag
  cases tag with
  | some same =>
    obtain ⟨kind, takes⟩ := same
    exact ⟨takes, congrArg some kind, h.enter .code, rfl⟩
  | none => exact ⟨(textLength_crlf settings noReturn).taken, rfl, h, rfl⟩

/-! ## Numbers -/

namespace Number

/-- A line end begins no number, and a number begins on its line. -/
theorem beginsAt_crlf (text : List Char) : beginsAt (crlf text) = beginsAt text := by
  induction text using crlf_induction with
  | nil => rfl
  | newline text _ => rfl
  | char c text ne _ => rw [crlf_cons ne, beginsAt, beginsAt, nextIs_crlf rfl]

theorem isDigitOf_lineEnd (radix : Nat) : isDigitOf radix '\r' = isDigitOf radix '\n' := rfl

/-- A run of digits ends on its line. -/
theorem digitsLength_crlf (radix : Nat) (text : List Char) :
    digitsLength radix (crlf text) = digitsLength radix text := by
  induction text using crlf_induction with
  | nil => rfl
  | newline text ih => rfl
  | char c text ne ih =>
    rw [crlf_cons ne, digitsLength, digitsLength, nextIs_crlf (isDigitOf_lineEnd radix), ih]

/-- A run of digits is taken as it stands, for no digit is a line end. -/
theorem takes_digits (radix : Nat) (text : List Char) :
    Takes text (digitsLength radix text) (digitsLength radix text) := by
  induction text with
  | nil => exact .none []
  | cons c text ih =>
    rw [digitsLength]
    split
    · rename_i digit
      exact ih.char (by rintro rfl; cases digit)
    · exact .none _

theorem announcedRadix?_cons_of_ne (h : c ≠ '0') (text : List Char) :
    announcedRadix? (c :: text) = none := by
  unfold announcedRadix?
  split
  · rename_i eq
    exact absurd (List.cons.inj eq).1 h
  · rfl

/-- The announcement of a radix and the digit behind it are on one line. -/
theorem announcedRadix?_crlf (text : List Char) :
    announcedRadix? (crlf text) = announcedRadix? text := by
  induction text using crlf_induction with
  | nil => rfl
  | newline text _ => rfl
  | char c text ne _ =>
    rw [crlf_cons ne]
    by_cases zero : c = '0'
    · subst zero
      induction text using crlf_induction with
      | nil => rfl
      | newline rest _ => rfl
      | char x rest ne _ =>
        simp only [crlf_cons ne, announcedRadix?, nextIs_crlf (isDigitOf_lineEnd _)]
    · rw [announcedRadix?_cons_of_ne zero, announcedRadix?_cons_of_ne zero]

theorem takes_of_announcedRadix? {radix : Nat} (h : announcedRadix? text = some radix) :
    Takes text 2 2 := by
  unfold announcedRadix? at h
  split at h
  · rename_i x rest
    refine .char (by decide) (.char ?_ (.none rest))
    rintro rfl
    cases h
  · cases h

/-- An exponent is on one line, sign and all. -/
theorem exponentLength_crlf (text : List Char) :
    exponentLength (crlf text) = exponentLength text := by
  induction text using crlf_induction with
  | nil => rfl
  | newline text _ => rfl
  | char e text ne _ =>
    rw [crlf_cons ne]
    -- the sign may be missing, so the digits are looked for in two places
    induction text using crlf_induction with
    | nil => rfl
    | newline text _ => rfl
    | char sign text ne _ =>
      have digits : digitsLength 10 (sign :: crlf text) = digitsLength 10 (sign :: text) := by
        rw [← crlf_cons ne, digitsLength_crlf]
      simp only [crlf_cons ne, exponentLength, @nextIs_crlf Char.isDigit rfl, digitsLength_crlf,
        digits]

/-- An exponent is taken as it stands. -/
theorem takes_exponent (text : List Char) :
    Takes text (exponentLength text) (exponentLength text) := by
  unfold exponentLength
  split
  · rename_i e rest
    split
    · rename_i isExponent
      have here : e ≠ '\n' := by rintro rfl; cases isExponent
      split
      · exact .none _
      · rename_i sign digits
        split
        · rename_i signed
          refine .char here (.char ?_ (takes_digits 10 digits))
          rintro rfl
          cases signed
        · split
          · exact .char here (takes_digits 10 _)
          · exact .none _
    · exact .none _
  · exact .none _

/-- The point and the digits behind it are on one line. -/
theorem fractionLength_crlf (text : List Char) :
    fractionLength (crlf text) = fractionLength text := by
  induction text using crlf_induction with
  | nil => rfl
  | newline text _ => rfl
  | char c text ne _ =>
    rw [crlf_cons ne]
    by_cases point : c = '.'
    · subst point
      exact congrArg (· + 1) (digitsLength_crlf 10 text)
    · simp [fractionLength, point]

theorem takes_fraction (text : List Char) :
    Takes text (fractionLength text) (fractionLength text) := by
  unfold fractionLength
  split
  · exact .char (by decide) (takes_digits 10 _)
  · exact .none _

/-- An integer literal has the same value wherever it stands. -/
theorem emitInteger_alike (h : a.Alike b) (radix : Nat) {literal : List Char}
    (takes : Takes text literal.length literal.length) (digits : List Char) :
    (emitInteger a radix literal digits).Alike text (emitInteger b radix literal digits) := by
  unfold emitInteger
  split
  · exact ⟨takes, rfl, h, rfl⟩
  · exact ⟨takes, rfl, h, rfl⟩

theorem emitReal_alike (h : a.Alike b) {literal : List Char}
    (takes : Takes text literal.length literal.length) :
    (emitReal a literal).Alike text (emitReal b literal) :=
  ⟨takes, rfl, h, rfl⟩

/-- An integer is read as octal, and found wrong as such, with either line ends. -/
theorem emitPlain_alike (h : a.Alike b) {literal : List Char}
    (takes : Takes text literal.length literal.length) :
    (emitPlain a literal).Alike text (emitPlain b literal) := by
  have octal := emitInteger_alike h 8 takes literal
  refine rel_ite Iff.rfl (fun _ => rel_ite Iff.rfl (fun _ => ?_) fun _ => octal) fun _ =>
    emitInteger_alike h 10 takes literal
  exact ⟨octal.takes, octal.kind, octal.context, congrArg (_ :: ·) octal.variants⟩

/-- What is taken of one line is the same literal. -/
theorem takes_literal (h : Takes text m m) : Takes text (text.take m).length (text.take m).length :=
  .of_line (List.take_prefix m text) (h.newline_not_mem rfl)

/-- A number is read alike, for it takes characters of one line only. -/
theorem step_crlf (h : a.Alike b) (text : List Char) :
    (step a text).Alike text (step b (crlf text)) := by
  unfold step
  rw [announcedRadix?_crlf]
  rcases announced : announcedRadix? text with _ | radix
  · dsimp only
    have whole := takes_digits 10 text
    have fraction := takes_fraction (text.drop (digitsLength 10 text))
    have exponent := takes_exponent
      (text.drop (digitsLength 10 text + fractionLength (text.drop (digitsLength 10 text))))
    have all := (whole.add fraction).add exponent
    rw [digitsLength_crlf, whole.drop_eq, fractionLength_crlf, (whole.add fraction).drop_eq,
      exponentLength_crlf, all.take_eq_self]
    exact rel_ite Iff.rfl (fun _ => emitPlain_alike h (takes_literal all)) fun _ =>
      emitReal_alike h (takes_literal all)
  · dsimp only
    have start := takes_of_announcedRadix? announced
    have all := start.add (takes_digits radix (text.drop 2))
    rw [Nat.add_comm 2] at all
    rw [start.drop_eq, digitsLength_crlf, all.take_eq_self]
    exact emitInteger_alike h radix (takes_literal all) _

/-- A key is read alike; its digits are on one line. -/
theorem offsetStep_crlf (h : a.Alike b) (text : List Char) :
    (offsetStep a text).Alike text (offsetStep b (crlf text)) := by
  have takes := @Takes.run Char.isDigit rfl text
  unfold offsetStep
  rw [@takeWhile_crlf_line Char.isDigit rfl rfl]
  refine rel_ite Iff.rfl (fun _ => ⟨takes, rfl, h, rfl⟩) fun _ => ?_
  split
  · exact ⟨takes, rfl, h, rfl⟩
  · exact ⟨takes, rfl, h, rfl⟩

end Number

/-! ## Interpolations -/

namespace Interpolation

/-- What begins an interpolation is on one line. -/
theorem startsAt_crlf (text : List Char) : startsAt (crlf text) = startsAt text := by
  induction text using crlf_induction with
  | nil => rfl
  | newline text _ => rfl
  | char c text ne _ =>
    rw [crlf_cons ne]
    by_cases dollar : c = '$'
    · subst dollar
      exact nextIs_crlf rfl text
    by_cases brace : c = '\x7b'
    · subst brace
      exact nextIs_crlf rfl text
    · simp [startsAt, dollar, brace]

/-- A label after one character is the same in both texts. -/
theorem emitVariable_alike (h : a.Alike b) (front : c ≠ '\n') (text : List Char) :
    (emitVariable a (c :: text)).Alike (c :: text) (emitVariable b (crlf (c :: text))) := by
  unfold emitVariable
  rw [crlf_cons front, List.drop_one, List.drop_one, List.tail_cons, List.tail_cons,
    @takeWhile_crlf_line isLabelPart rfl rfl]
  exact ⟨(@Takes.run isLabelPart rfl text).char front, rfl, h, rfl⟩

theorem arrowAt_eq_false (h : ¬['-', '>'] <+: text) (h' : ¬['?', '-', '>'] <+: text) :
    arrowAt text = false := by
  unfold arrowAt
  split
  · exact absurd ⟨_, rfl⟩ h
  · exact absurd ⟨_, rfl⟩ h'
  · rfl

/-- An arrow and the label behind it are on one line. -/
theorem arrowAt_crlf (text : List Char) : arrowAt (crlf text) = arrowAt text := by
  by_cases arrow : ['-', '>'] <+: text
  · obtain ⟨rest, rfl⟩ := arrow
    rw [crlf_append]
    exact nextIs_crlf rfl rest
  by_cases nullsafe : ['?', '-', '>'] <+: text
  · obtain ⟨rest, rfl⟩ := nullsafe
    rw [crlf_append]
    exact nextIs_crlf rfl rest
  · rw [arrowAt_eq_false arrow nullsafe, arrowAt_eq_false
      (mt (isPrefix_crlf_iff (by decide)).1 arrow) (mt (isPrefix_crlf_iff (by decide)).1 nullsafe)]

/-- A dollar sign without a brace begins a variable, and what is behind its label decides the
mode. -/
theorem step_dollar (context : Context) (h : ¬nextIs (· == '\x7b') text) :
    step context ('$' :: text) =
      if nextIs (· == '[') (text.dropWhile isLabelPart) then
        (emitVariable context ('$' :: text)).push .offset
      else if arrowAt (text.dropWhile isLabelPart) then
        (emitVariable context ('$' :: text)).push .property
      else emitVariable context ('$' :: text) := by
  unfold step
  split
  · rename_i eq
    obtain ⟨-, rfl⟩ := List.cons.inj eq
    exact absurd rfl h
  · rename_i eq
    cases (List.cons.inj eq).1
  · rfl

/-- The beginning of an interpolation is read alike. -/
theorem step_crlf (h : a.Alike b) (starts : startsAt text) :
    (step a text).Alike text (step b (crlf text)) := by
  unfold startsAt at starts
  split at starts
  · rename_i rest
    rw [crlf_cons (by decide)]
    by_cases brace : nextIs (· == '\x7b') rest
    · obtain ⟨rest, rfl⟩ := exists_cons_of_nextIs brace
      rw [crlf_cons (by decide)]
      exact ⟨.char (by decide) (.char (by decide) (.none _)), rfl, h.push _, rfl⟩
    · rw [step_dollar a brace, step_dollar b (by rwa [nextIs_crlf rfl]), dropWhile_crlf rfl,
        nextIs_crlf rfl, arrowAt_crlf, ← crlf_cons (by decide)]
      have label := emitVariable_alike h (by decide : '$' ≠ '\n') rest
      refine rel_ite Iff.rfl (fun _ => label.change _) fun _ => ?_
      exact rel_ite Iff.rfl (fun _ => label.change _) fun _ => label
  · rw [crlf_cons (by decide)]
    exact ⟨.char (by decide) (.none _), rfl, h.push _, rfl⟩
  · cases starts

/-- Without an arrow in front, a step after an arrow takes blanks or a label, or leaves. -/
theorem propertyStep_other (context : Context) (h : ¬['-', '>'] <+: text)
    (h' : ¬['?', '-', '>'] <+: text) :
    propertyStep context text =
      if !(text.takeWhile isBlank).isEmpty then
        .emit context .whitespace (text.takeWhile isBlank).length
      else
        (if nextIs isLabelStart text then
          Step.emitShared context .identifier (text.takeWhile isLabelPart).length
            (text.takeWhile isLabelPart)
          else .silent context).pop := by
  unfold propertyStep
  refine if_congr Iff.rfl rfl ?_
  split
  · exact absurd ⟨_, rfl⟩ h
  · exact absurd ⟨_, rfl⟩ h'
  · rfl

/-- After an arrow the same is read. Blanks may hold line ends, which are then longer. -/
theorem propertyStep_crlf (h : a.Alike b) (text : List Char) :
    (propertyStep a text).Alike text (propertyStep b (crlf text)) := by
  have blanks := @Takes.takeWhile isBlank rfl text
  by_cases arrow : ['-', '>'] <+: text
  · obtain ⟨rest, rfl⟩ := arrow
    rw [crlf_append]
    exact ⟨.char (by decide) (.char (by decide) (.none _)), rfl, h, rfl⟩
  by_cases nullsafe : ['?', '-', '>'] <+: text
  · obtain ⟨rest, rfl⟩ := nullsafe
    rw [crlf_append]
    exact ⟨.char (by decide) (.char (by decide) (.char (by decide) (.none _))), rfl, h, rfl⟩
  rw [propertyStep_other a arrow nullsafe, propertyStep_other b
    (mt (isPrefix_crlf_iff (by decide)).1 arrow) (mt (isPrefix_crlf_iff (by decide)).1 nullsafe)]
  refine rel_ite (by rw [takeWhile_crlf rfl, isEmpty_crlf]) (fun _ => ⟨blanks, rfl, h, rfl⟩)
    fun _ => ?_
  rw [@takeWhile_crlf_line isLabelPart rfl rfl]
  refine Step.Alike.change ?_ .pop
  exact rel_ite (by rw [nextIs_crlf rfl]) (fun _ => ⟨.run rfl text, rfl, h, rfl⟩)
    fun _ => ⟨.none _, rfl, h, rfl⟩

/-- A bare variable and what has to follow it are on one line. -/
theorem variableNameStep_crlf (h : a.Alike b) (text : List Char) :
    (variableNameStep a text).Alike text (variableNameStep b (crlf text)) := by
  have label := @Takes.run isLabelPart rfl text
  unfold variableNameStep
  rw [@takeWhile_crlf_line isLabelPart rfl rfl]
  dsimp only
  rw [label.drop_eq, nextIs_crlf rfl, nextIs_crlf rfl]
  refine (Step.Alike.change ?_ .pop).change (.push .code)
  exact rel_ite Iff.rfl (fun _ => ⟨label, rfl, h, rfl⟩) fun _ => ⟨.none _, rfl, h, rfl⟩

theorem offsetStep_other (context : Context) (h : c ∉ ['[', ']', '-']) (text : List Char) :
    offsetStep context (c :: text) =
      if nextIs (· == '$') (c :: text) && nextIs isLabelStart text then
        emitVariable context (c :: text)
      else if nextIs Char.isDigit (c :: text) then Number.offsetStep context (c :: text)
      else if nextIs isLabelStart (c :: text) then
        .emitShared context .identifier ((c :: text).takeWhile isLabelPart).length
          ((c :: text).takeWhile isLabelPart)
      else (Step.silent context).pop := by
  simp only [List.mem_cons, List.not_mem_nil, or_false, not_or] at h
  unfold offsetStep
  split
  · rename_i eq
    exact absurd (List.cons.inj eq).1 h.1
  · rename_i eq
    exact absurd (List.cons.inj eq).1 h.2.1
  · rename_i eq
    exact absurd (List.cons.inj eq).1 h.2.2
  · rfl

/-- Between brackets the same is read. -/
theorem offsetStep_crlf (h : a.Alike b) (text : List Char) :
    (offsetStep a text).Alike text (offsetStep b (crlf text)) := by
  induction text using crlf_induction with
  | nil => exact ⟨.none _, rfl, h.pop, rfl⟩
  | newline text _ => exact ⟨.none _, rfl, h.pop, rfl⟩
  | char c text ne _ =>
    by_cases mark : c ∈ ['[', ']', '-']
    · rw [crlf_cons ne]
      simp only [List.mem_cons, List.not_mem_nil, or_false] at mark
      rcases mark with rfl | rfl | rfl
      · exact ⟨.char ne (.none _), rfl, h, rfl⟩
      · exact ⟨.char ne (.none _), rfl, h.pop, rfl⟩
      · exact ⟨.char ne (.none _), rfl, h, rfl⟩
    have label := @takeWhile_crlf_line isLabelPart rfl rfl (c :: text)
    have number := Number.offsetStep_crlf h (c :: text)
    have name := emitVariable_alike h ne text
    rw [crlf_cons ne] at label number name ⊢
    rw [offsetStep_other a mark, offsetStep_other b mark, nextIs_crlf rfl, label]
    refine rel_ite Iff.rfl (fun _ => name) fun _ => rel_ite Iff.rfl (fun _ => number) fun _ => ?_
    exact rel_ite Iff.rfl (fun _ => ⟨.run rfl _, rfl, h, rfl⟩) fun _ => ⟨.none _, rfl, h.pop, rfl⟩

end Interpolation

end PhpFrontEnd
