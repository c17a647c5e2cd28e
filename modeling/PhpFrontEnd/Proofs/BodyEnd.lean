import PhpFrontEnd.Lexer.Heredoc

/-!
# Where a body closes

The lexer looks for a closing label in two ways: fragment by fragment in a heredoc, where escapes
hide characters, and all at once in a nowdoc. What either finds is a `Heredoc.ClosesAt`: whole
lines, or the rest of one, then the indentation of the label, then the label itself.

From this follows what the last fragment of a body is. It runs up to the label, so that its last
line is the label's indentation, and if nothing is left of it without that indentation then it
held blanks only. `Heredoc.Dedented` is what is left of a fragment.
-/

namespace PhpFrontEnd

theorem drop_length_takeWhile (p : Char → Bool) (text : List Char) :
    text.drop (text.takeWhile p).length = text.dropWhile p := by
  induction text with
  | nil => rfl
  | cons c rest ih =>
    by_cases h : p c <;> simp [h, ih]

/-- What is dropped as long as it has a property ends where the next character has it not. -/
theorem not_nextIs_dropWhile (p : Char → Bool) (text : List Char) :
    nextIs p (text.dropWhile p) = false := by
  induction text with
  | nil => rfl
  | cons c rest ih =>
    by_cases h : p c
    · simpa [h] using ih
    · simp [h, nextIs]

namespace Heredoc

variable {label text : List Char} {lineStart : Bool} {before indent : Nat}

/-! ## Closing labels -/

/-- A label in front comes after all of the indentation. -/
theorem closingIndent?_eq_some (h : closingIndent? label text = some indent) :
    indent = (text.takeWhile isIndent).length ∧ label <+: text.dropWhile isIndent := by
  unfold closingIndent? at h
  dsimp only at h
  split at h
  · rename_i fits
    rw [Bool.and_eq_true, List.isPrefixOf_iff_prefix] at fits
    exact ⟨(Option.some.inj h).symm, fits.1⟩
  · contradiction

/-- A closing label that stands in a text: after some characters, which are whole lines or the
rest of one, comes its indentation. The first line counts only if it is whole. -/
structure ClosesAt (label text : List Char) (lineStart : Bool) (before indent : Nat) : Prop where
  lineBegin : (before = 0 ∧ lineStart) ∨ ∃ lines, text.take before = lines ++ ['\n']
  here : closingIndent? label (text.drop before) = some indent

namespace ClosesAt

/-- The label begins where the indentation of its line ends. -/
theorem drop_eq (h : ClosesAt label text lineStart before indent) :
    text.drop (before + indent) = (text.drop before).dropWhile isIndent := by
  rw [← List.drop_drop, (closingIndent?_eq_some h.here).1, drop_length_takeWhile]

/-- The label itself is in front after its indentation. -/
theorem isPrefix (h : ClosesAt label text lineStart before indent) :
    label <+: text.drop (before + indent) := by
  rw [h.drop_eq]
  exact (closingIndent?_eq_some h.here).2

theorem not_indent (h : ClosesAt label text lineStart before indent) :
    nextIs isIndent (text.drop (before + indent)) = false := by
  rw [h.drop_eq]
  exact not_nextIs_dropWhile isIndent _

/-- What comes before the label is whole lines and the indentation. -/
theorem take_eq (h : ClosesAt label text lineStart before indent) :
    text.take (before + indent) = text.take before ++ (text.drop before).takeWhile isIndent := by
  rw [List.take_add, (closingIndent?_eq_some h.here).1]
  congr 1
  exact (List.prefix_iff_eq_take.1 (List.takeWhile_prefix _)).symm

/-- A closing label on the first line of a text. -/
theorem first (h : (if lineStart then closingIndent? label text else none) = some indent) :
    ClosesAt label text lineStart 0 indent := by
  cases lineStart with
  | false => cases h
  | true => exact ⟨.inl ⟨rfl, rfl⟩, h⟩

/-- A closing label stays one with another character in front, unless its line is no longer
whole. -/
theorem cons {c : Char} {flag : Bool} (h : ClosesAt label text flag before indent)
    (line : flag → c = '\n') : ClosesAt label (c :: text) lineStart (before + 1) indent := by
  refine ⟨.inr ?_, h.here⟩
  rcases h.lineBegin with ⟨rfl, flagged⟩ | ⟨lines, eq⟩
  · exact ⟨[], by simp [line flagged]⟩
  · exact ⟨c :: lines, by simp [eq]⟩

end ClosesAt

/-! ## The two searches -/

/-- A label found at the cursor closes the body there, if a line starts. -/
theorem ClosingLabel.here?_closesAt {found : ClosingLabel}
    (h : (if lineStart then here? label text else none) = some found) :
    ∃ indent, found = ⟨0, indent⟩ ∧ ClosesAt label text lineStart 0 indent := by
  cases lineStart with
  | false => cases h
  | true =>
    obtain ⟨indent, eq, rfl⟩ := Option.map_eq_some_iff.1 h
    exact ⟨indent, rfl, .first eq⟩

/-- A label found on a later line closes the body there. -/
theorem ClosingLabel.ahead?_closesAt {found : ClosingLabel} (h : ahead? label text = some found) :
    ∃ indent, found.labelStart = found.lineStart + indent ∧
      ClosesAt label text lineStart found.lineStart indent := by
  induction text generalizing found lineStart with
  | nil => cases h
  | cons c rest ih =>
    have later {later : Option ClosingLabel} (eq : later = ahead? label rest)
        (h : later.map (·.shift 1) = some found) :
        ∃ indent, found.labelStart = found.lineStart + indent ∧
          ClosesAt label (c :: rest) lineStart found.lineStart indent := by
      obtain ⟨inner, same, rfl⟩ := Option.map_eq_some_iff.1 h
      obtain ⟨indent, labelStart, closes⟩ := @ih false inner (eq ▸ same)
      refine ⟨indent, ?_, closes.cons nofun⟩
      simp only [shift, labelStart]
      omega
    unfold ahead? at h
    split at h
    · rename_i newline
      split at h
      · rename_i inner here
        obtain rfl := Option.some.inj h
        obtain ⟨indent, rfl, closes⟩ := @here?_closesAt _ _ true _ here
        refine ⟨indent, ?_, closes.cons fun _ => newline⟩
        simp only [shift]
        omega
      · exact later rfl h
    · exact later rfl h

/-- What the search in a nowdoc finds is a closing label. -/
theorem ClosingLabel.find?_closesAt {found : ClosingLabel}
    (h : find? label lineStart text = some found) :
    ∃ indent, found.labelStart = found.lineStart + indent ∧
      ClosesAt label text lineStart found.lineStart indent := by
  unfold find? at h
  split at h
  · rename_i inner here
    obtain rfl := Option.some.inj h
    obtain ⟨indent, rfl, closes⟩ := here?_closesAt here
    exact ⟨indent, (Nat.zero_add _).symm, closes⟩
  · exact ahead?_closesAt h

end Heredoc

/-- A fragment as it is counted from some characters further back. -/
def HeredocBody.passed (k : Nat) (found : Nat × FragmentEnd) : Nat × FragmentEnd :=
  (found.1 + k, found.2)

theorem HeredocBody.passed_passed (j k : Nat) (found : Nat × FragmentEnd) :
    passed j (passed k found) = passed (k + j) found :=
  congrArg (·, found.2) (Nat.add_assoc _ _ _)

/-- A fragment in front of a closing label is empty. -/
theorem HeredocBody.fragment_of_closing {label text : List Char} {indent : Nat}
    (h : Heredoc.closingIndent? label text = some indent) :
    fragment label true text = (0, .label indent) := by
  rw [fragment.eq_def]
  rcases text with _ | ⟨c, text⟩ <;> simp only [if_true, h]

/-- Characters that a backslash takes along. -/
def HeredocBody.isTaken (c : Char) : Bool := c ≠ '\n' && c ≠ '\x00'

/-- A fragment goes on over a character at which nothing ends and no escape begins. -/
theorem HeredocBody.fragment_passes {label text : List Char} {lineStart : Bool} {c : Char}
    (h : (if lineStart then Heredoc.closingIndent? label (c :: text) else none) = none)
    (starts : Interpolation.startsAt (c :: text) = false)
    (escape : c = '\\' → nextIs isTaken text = false) :
    fragment label lineStart (c :: text) = passed 1 (fragment label (c == '\n') text) := by
  rcases text with _ | ⟨d, text⟩
  · rw [fragment.eq_def label lineStart [c]]
    simp [h, starts, passed]
  · have notEscape : ¬(c = '\\' ∧ d ≠ '\n' ∧ d ≠ '\x00') := fun all => by
      simpa [nextIs, isTaken, all.2] using escape all.1
    rw [fragment.eq_def label lineStart (c :: d :: text)]
    simp only [h, starts, notEscape]
    rfl

/-- What a fragment in a heredoc ends at is a closing label. -/
theorem HeredocBody.fragment_closesAt {label text : List Char} {lineStart : Bool} {indent : Nat}
    (h : (fragment label lineStart text).2 = .label indent) :
    Heredoc.ClosesAt label text lineStart (fragment label lineStart text).1 indent := by
  fun_induction fragment label lineStart text with
  | case1 lineStart found here =>
    obtain rfl := FragmentEnd.label.inj h
    exact .first here
  | case2 lineStart none => cases h
  | case3 lineStart c rest found here =>
    obtain rfl := FragmentEnd.label.inj h
    exact .first here
  | case4 => cases h
  | case5 lineStart c none plain ih => exact (ih h).cons fun newline => by simpa using newline
  | case6 lineStart c next rest escaped none plain ih =>
    have escapedCloses : Heredoc.ClosesAt label (next :: rest) false _ _ := (ih h).cons nofun
    exact escapedCloses.cons nofun
  | case7 lineStart c next rest none plain escaped ih =>
    exact (ih h).cons fun newline => by simpa using newline

/-- A fragment that ends at an interpolation ends in front of one. -/
theorem HeredocBody.fragment_startsAt {label text : List Char} {lineStart : Bool}
    (h : (fragment label lineStart text).2 = .interpolation) :
    Interpolation.startsAt (text.drop (fragment label lineStart text).1) := by
  fun_induction fragment label lineStart text with
  | case1 | case2 | case3 => cases h
  | case4 lineStart c rest none starts => exact starts
  | case5 lineStart c none plain ih => exact ih h
  | case6 lineStart c next rest escaped none plain ih => exact ih h
  | case7 lineStart c next rest none plain escaped ih => exact ih h

namespace Heredoc

/-! ## Lines -/

/-- The lines of a text, put together again. -/
theorem Lines.join_of (text : List Char) :
    (Lines.of text).complete.flatMap (· ++ ['\n']) ++ (Lines.of text).last = text := by
  induction text with
  | nil => rfl
  | cons c rest ih =>
    unfold Lines.of
    dsimp only
    split
    · rename_i newline
      simpa [newline] using ih
    · split
      · rename_i none
        simpa [none] using ih
      · rename_i line more some
        simpa [some] using ih

/-- Only what follows the last line feed counts for the last line. -/
theorem Lines.last_append (lines tail : List Char) :
    (Lines.of (lines ++ '\n' :: tail)).complete ≠ [] ∧
      (Lines.of (lines ++ '\n' :: tail)).last = (Lines.of tail).last := by
  induction lines with
  | nil => simp [Lines.of]
  | cons c rest ih =>
    obtain ⟨ne, last⟩ := ih
    rw [List.cons_append, Lines.of]
    split
    · exact ⟨by simp, last⟩
    · split
      · contradiction
      · exact ⟨by simp, last⟩

theorem Lines.mem_of_mem_last {text : List Char} {c : Char} (h : c ∈ (Lines.of text).last) :
    c ∈ text := by
  rw [← Lines.join_of text]
  exact List.mem_append_right _ h

/-- The last line of a text up to a closing label is the indentation of the label. -/
theorem ClosesAt.isIndent_of_mem_last (h : ClosesAt label text lineStart before indent) {c : Char}
    (mem : c ∈ (Lines.of (text.take (before + indent))).last) : isIndent c := by
  have blanks : c ∈ (text.drop before).takeWhile isIndent → isIndent c := fun mem =>
    List.all_eq_true.1 List.all_takeWhile c mem
  rw [h.take_eq] at mem
  rcases h.lineBegin with ⟨rfl, -⟩ | ⟨lines, eq⟩
  · rw [List.take_zero, List.nil_append] at mem
    exact blanks (Lines.mem_of_mem_last mem)
  · rw [eq, List.append_assoc, List.singleton_append, (Lines.last_append _ _).2] at mem
    exact blanks (Lines.mem_of_mem_last mem)

/-! ## Bodies that vanish -/

theorem mem_intercalate {lines : List (List Char)} {line : List Char} {c : Char}
    (mem : line ∈ lines) (h : c ∈ line) : c ∈ List.intercalate ['\n'] lines := by
  induction lines with
  | nil => cases mem
  | cons first more ih =>
    cases more with
    | nil =>
      obtain rfl := List.mem_singleton.1 mem
      simpa [List.intercalate] using h
    | cons second more =>
      have eq : List.intercalate ['\n'] (first :: second :: more) =
          first ++ '\n' :: List.intercalate ['\n'] (second :: more) := by
        simp [List.intercalate, List.intersperse]
      rw [eq]
      rcases List.mem_cons.1 mem with rfl | mem
      · exact List.mem_append_left _ h
      · exact List.mem_append_right _ (List.mem_cons_of_mem _ (ih mem))

/-- The body of a last fragment holds its complete lines, up to the carriage return of the last
line end. -/
theorem mem_finalBody_of_line {line : List Char} {c : Char} (mem : line ∈ (Lines.of text).complete)
    (h : c ∈ line) (notReturn : c ≠ '\r') : c ∈ finalBody text := by
  have inBody := mem_intercalate mem h
  unfold finalBody
  dsimp only
  split
  · rename_i carriage
    obtain ⟨front, eq⟩ := List.getLast?_eq_some_iff.1 carriage
    rw [eq, List.mem_append] at inBody
    rw [eq, List.dropLast_concat]
    exact inBody.resolve_right (by simpa using notReturn)
  · exact inBody

/-- The body of a last fragment leaves out the line end before the closing label, the label's
indentation, and nothing else. -/
theorem mem_finalBody {c : Char} (mem : c ∈ text) (h : ¬isBlank c) :
    c ∈ finalBody text ∨ c ∈ (Lines.of text).last := by
  have notFeed : c ≠ '\n' := by
    rintro rfl
    exact h rfl
  have notReturn : c ≠ '\r' := by
    rintro rfl
    exact h rfl
  rw [← Lines.join_of text, List.mem_append] at mem
  rcases mem with mem | last
  · obtain ⟨line, lineMem, mem⟩ := List.mem_flatMap.1 mem
    have inLine : c ∈ line := by simpa [notFeed] using mem
    exact .inl (mem_finalBody_of_line lineMem inLine notReturn)
  · exact .inr last

/-- Dedenting takes away indentation only. -/
theorem mem_dedentFrom {width left : Nat} {c : Char} (mem : c ∈ text) (h : ¬isIndent c) :
    c ∈ dedentFrom width left text := by
  induction text generalizing left with
  | nil => cases mem
  | cons d rest ih =>
    rw [dedentFrom]
    split
    · rename_i blank
      rcases List.mem_cons.1 mem with rfl | mem
      · exact absurd blank.2 h
      · exact ih mem
    · rcases List.mem_cons.1 mem with rfl | mem
      · exact List.mem_cons_self
      · exact List.mem_cons_of_mem _ (ih mem)

theorem isBlank_of_isIndent {c : Char} (h : isIndent c) : isBlank c := by
  simp only [isIndent, isBlank, Bool.or_eq_true] at *
  exact .inl (.inl h)

theorem not_isBlank_of_isLabelPart {c : Char} (h : isLabelPart c) : isBlank c = false := by
  refine Bool.eq_false_iff.2 fun blank => ?_
  simp only [isBlank, Bool.or_eq_true, beq_iff_eq] at blank
  rcases blank with ((rfl | rfl) | rfl) | rfl <;> exact absurd h (by decide)

/-- What comes of the indentation of a fragment. -/
@[ext]
structure Dedented where
  /-- whether a line has less indentation than it owes -/
  wrong : Bool
  /-- the fragment without the indentation -/
  body : List Char
  deriving DecidableEq

/-- The diagnostics of a fragment about its indentation. -/
def Dedented.errors (dedented : Dedented) : List LexError :=
  if dedented.wrong then [.heredocIndentation] else []

/-- What comes of a fragment that runs up to the closing label. -/
def dedentLast (source : List Char) (lineStart : Bool) : Dedented :=
  match resolve source lineStart with
  | .ok width => ⟨false, dedent (finalBody source) lineStart width⟩
  | .error mismatch => ⟨true, dedent (finalBody source) lineStart mismatch.shared⟩

/-- Right or wrong, the last fragment is dedented by some width. -/
theorem dedentLast_body (source : List Char) (lineStart : Bool) : ∃ width left,
    (dedentLast source lineStart).body = dedentFrom width left (finalBody source) := by
  rw [dedentLast]
  split
  · exact ⟨_, _, rfl⟩
  · exact ⟨_, _, rfl⟩

/-- A fragment up to a closing label of which nothing is left holds blanks only. -/
theorem ClosesAt.isBlank_of_dedentLast (h : ClosesAt label text lineStart before indent)
    {flag : Bool} (nil : (dedentLast (text.take (before + indent)) flag).body = []) :
    ∀ c ∈ text.take (before + indent), isBlank c := by
  intro c mem
  refine Decidable.byContradiction fun visible => ?_
  have notIndent : ¬isIndent c := fun indent => visible (isBlank_of_isIndent indent)
  rcases mem_finalBody mem visible with body | last
  · obtain ⟨width, left, eq⟩ := dedentLast_body (text.take (before + indent)) flag
    have kept : c ∈ dedentFrom width left (finalBody (text.take (before + indent))) :=
      mem_dedentFrom body notIndent
    rw [← eq, nil] at kept
    cases kept
  · exact notIndent (h.isIndent_of_mem_last last)

end Heredoc

/-- The last fragment of a body makes a token unless nothing is left of it. -/
theorem HeredocBody.closeStep_eq (settings : Settings) (context : Context)
    (isNowdoc lineStart : Bool) (source : List Char) :
    closeStep settings context isNowdoc lineStart source =
      let dedented := Heredoc.dedentLast source lineStart
      if dedented.body.isEmpty then
        let blanks := { Step.silent context with
          length := source.length, errors := dedented.errors }
        blanks.enter .closingLabel
      else
        let decoded := decodeFragment settings isNowdoc dedented.body
        let run := { Step.emitRun context source decoded with
          errors := dedented.errors ++ decoded.errors source }
        run.enter .closingLabel := by
  rw [closeStep, Heredoc.dedentLast]
  cases Heredoc.resolve source lineStart <;> exact apply_ite (Step.enter · .closingLabel) _ _ _

/-! ## Steps in a body -/

namespace HeredocBody

open Heredoc

variable {settings : Settings} {context : Context} {lineStart : Bool} {text : List Char}

/-- What a step in a body takes. Only heredocs have interpolations, and fragments that end at
one. -/
inductive AtBody (settings : Settings) (context : Context) (lineStart : Bool) (text : List Char) :
    Bool → Step → Prop where
  | unlabelled {isNowdoc : Bool} (none : context.label = none) :
      AtBody settings context lineStart text isNowdoc (Step.silent context).pop
  | closes {isNowdoc : Bool} {name : String} {before indent : Nat}
      (held : context.label = some name)
      (closes : ClosesAt name.toList text lineStart before indent) :
      AtBody settings context lineStart text isNowdoc
        (closeStep settings context isNowdoc lineStart (text.take (before + indent)))
  | interpolates (starts : Interpolation.startsAt text) :
      AtBody settings context lineStart text false (Interpolation.step context text)
  | fragment {name : String} {length : Nat} (held : context.label = some name) (pos : length ≠ 0)
      (starts : Interpolation.startsAt (text.drop length)) :
      AtBody settings context lineStart text false
        (fragmentStep settings context name.toList lineStart (text.take length) (text.drop length))
  | source {isNowdoc : Bool} :
      AtBody settings context lineStart text isNowdoc
        (.emitRun context text (decodeFragment settings isNowdoc text))

/-- A step in a heredoc is one of a body. -/
theorem atBody_heredoc : AtBody settings context lineStart text false
    (heredocStep settings context lineStart text) := by
  rw [heredocStep]
  split
  · rename_i none
    exact .unlabelled none
  · rename_i label held
    split
    · rename_i length indent found
      have closes := fragment_closesAt (congrArg Prod.snd found : _ = FragmentEnd.label indent)
      rw [found] at closes
      exact .closes held closes
    · rename_i length found
      have starts := fragment_startsAt (congrArg Prod.snd found)
      rw [found] at starts
      split
      · -- no fragment comes before the interpolation
        rename_i zero
        rw [zero] at starts
        exact .interpolates starts
      · rename_i pos
        exact .fragment held pos starts
    · exact .source

/-- A step in a nowdoc is one of a body. -/
theorem atBody_nowdoc : AtBody settings context lineStart text true
    (nowdocStep settings context lineStart text) := by
  rw [nowdocStep]
  split
  · rename_i none
    exact .unlabelled none
  · rename_i label held
    split
    · rename_i found search
      obtain ⟨indent, labelStart, closes⟩ := ClosingLabel.find?_closesAt search
      rw [labelStart]
      exact .closes held closes
    · exact .source

end HeredocBody

end PhpFrontEnd
