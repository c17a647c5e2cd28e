import PhpFrontEnd.Proofs.BodyLines
import PhpFrontEnd.Proofs.Move
import PhpFrontEnd.Proofs.QuotedText

/-!
# Texts written as nowdocs

Any text without carriage returns can be written as a nowdoc, if no line of it looks like the
closing label. Its lines may all be indented by as many spaces as the closing label, and what is
read there is the text again, whatever comes after it (`Lexer.readsNowdoc`).

A body is read from its opening, which a lexer in code takes in one step, to its closing label,
which takes a mode of its own. Both are the same for heredocs, and so is the fragment that the
closing label ends.
-/

namespace PhpFrontEnd

variable {label rest : List Char}

namespace HeredocBody

/-! ## The opening -/

/-- What is put on either side of a label to open a body. -/
def quotes (isNowdoc : Bool) : List Char := if isNowdoc then ['\x27'] else []

/-- The opening of a body. -/
def opening (isNowdoc : Bool) (label : List Char) : List Char :=
  ['<', '<', '<'] ++ (quotes isNowdoc ++ (label ++ (quotes isNowdoc ++ ['\n'])))

/-- An opening that ends in some line end. -/
def openingWith (lineEnd : List Char) (isNowdoc : Bool) (label : List Char) : List Char :=
  ['<', '<', '<'] ++ (quotes isNowdoc ++ (label ++ (quotes isNowdoc ++ lineEnd)))

theorem takeWhile_label (isLabel : IsLabel label) (ends : nextIs isLabelPart rest = false) :
    (label ++ rest).takeWhile isLabelPart = label := by
  rw [List.takeWhile_append_of_pos isLabel.part]
  rcases rest with _ | ⟨c, rest⟩
  · exact List.append_nil _
  · have last : ¬isLabelPart c := Bool.eq_false_iff.1 ends
    rw [List.takeWhile_cons_of_neg last, List.append_nil]

/-- A label begins with neither a blank nor a quote. -/
theorem label_front (isLabel : IsLabel label) (rest : List Char) :
    (label ++ rest).takeWhile isIndent = [] ∧
      (label ++ rest).head?.filter (fun c => c == '\x27' || c == '"') = none := by
  obtain ⟨c, tail, rfl⟩ := List.exists_cons_of_ne_nil isLabel.ne_nil
  have part : isLabelPart c := isLabel.part c List.mem_cons_self
  constructor
  · exact List.takeWhile_cons_of_neg
      (Bool.eq_false_iff.1 (Heredoc.not_isIndent_of_isLabelPart part))
  · refine Option.filter_eq_none_iff.2 fun d eq isQuote => ?_
    obtain rfl : c = d := Option.some.inj eq
    have quote : c = '\x27' ∨ c = '"' := by simpa using isQuote
    rcases quote with rfl | rfl <;> revert part <;> decide

theorem Opening.after?_opening (isLabel : IsLabel label) (isNowdoc : Bool) {text : List Char}
    {length : Nat} (lineEnd : lineEndLength? text = some length) :
    Opening.after? (quotes isNowdoc ++ (label ++ (quotes isNowdoc ++ text))) =
      some ⟨label, isNowdoc, 2 * (quotes isNowdoc).length + label.length + length⟩ := by
  obtain ⟨noBlank, noQuote⟩ := label_front isLabel (quotes isNowdoc ++ text)
  have blanks : (quotes isNowdoc ++ (label ++ (quotes isNowdoc ++ text))).takeWhile
      isIndent = [] := by
    cases isNowdoc with
    | false => exact noBlank
    | true => rfl
  have quote : ((quotes isNowdoc ++ (label ++ (quotes isNowdoc ++ text))).head?.filter
      fun c => c == '\x27' || c == '"').toList = quotes isNowdoc := by
    cases isNowdoc with
    | false => exact congrArg Option.toList noQuote
    | true => rfl
  have ends : nextIs isLabelPart (quotes isNowdoc ++ text) = false := by
    cases isNowdoc with
    | false =>
      unfold lineEndLength? at lineEnd
      split at lineEnd <;> first | rfl | cases lineEnd
    | true => rfl
  have kind : (quotes isNowdoc == ['\x27']) = isNowdoc := by cases isNowdoc <;> rfl
  have closed : (quotes isNowdoc).isPrefixOf (quotes isNowdoc ++ text) = true :=
    List.isPrefixOf_iff_prefix.2 (List.prefix_append _ _)
  unfold Opening.after?
  dsimp only
  rw [blanks, List.length_nil, List.drop_zero, quote, List.drop_left, takeWhile_label isLabel ends,
    List.drop_left, List.drop_left, isLabel.start, closed, kind, Nat.zero_add, lineEnd]
  rfl

/-- The opening of a body is taken in one step, with its line end. -/
theorem step_openingWith (settings : Settings) (context : Context) (start : Nat)
    (isLabel : IsLabel label) (isNowdoc : Bool) {lineEnd text : List Char}
    (ends : lineEndLength? (lineEnd ++ text) = some lineEnd.length) :
    Code.step settings context start (openingWith lineEnd isNowdoc label ++ text) =
      (Step.emitShared { context with label := some (String.ofList label) } .heredocStart
        (openingWith lineEnd isNowdoc label).length label).push
        (if isNowdoc then .nowdoc else .heredoc) := by
  have written : openingWith lineEnd isNowdoc label ++ text = '<' :: '<' :: '<' ::
      (quotes isNowdoc ++ (label ++ (quotes isNowdoc ++ (lineEnd ++ text)))) := by
    simp [openingWith]
  have length : (openingWith lineEnd isNowdoc label).length =
      0 + 3 + (2 * (quotes isNowdoc).length + label.length + lineEnd.length) := by
    simp [openingWith]
    omega
  have opens : Opening.after? ((openingWith lineEnd isNowdoc label ++ text).drop (0 + 3)) =
      some ⟨label, isNowdoc, 2 * (quotes isNowdoc).length + label.length + lineEnd.length⟩ := by
    rw [written]
    exact Opening.after?_opening isLabel isNowdoc ends
  calc Code.step settings context start (openingWith lineEnd isNowdoc label ++ text)
    _ = (openingStep? context (openingWith lineEnd isNowdoc label ++ text) 0).getD
          (Code.markStep context (openingWith lineEnd isNowdoc label ++ text)) := by
      rw [written]
      rfl
    _ = _ := by rw [openingStep?, opens, length]; rfl

/-! ## The closing label -/

/-- The closing label is taken in one step, and given up. -/
theorem step_closing (context : Context) (held : context.label = some (String.ofList label))
    (isLabel : IsLabel label) (rest : List Char) :
    closingStep context (label ++ rest) =
      { length := label.length
        token := some (.heredocEnd, .text (.ofChars label))
        context := { context.pop with label := none }
        changes := [.pop] } := by
  have front : label.isPrefixOf (label ++ rest) = true :=
    List.isPrefixOf_iff_prefix.2 (List.prefix_append _ _)
  unfold closingStep
  dsimp only
  rw [held, (label_front isLabel rest).1, ← Context.pop_forget_label]
  simp only [List.length_nil, List.drop_zero, String.toList_ofList, front, if_true, Nat.zero_add,
    String.length_ofList]
  rfl

end HeredocBody

/-! ## Reading -/

namespace Lexer

open HeredocBody Heredoc

variable {lexer later : Lexer} {token : Token} {tokens : List Token}

/-- A step without a token comes before the step that makes the first one. -/
theorem Reads.of_silent (silent : lexer.step.token = none) (errors : lexer.step.errors = [])
    (h : lexer.advance.Reads (token :: tokens) later) : lexer.Reads (token :: tokens) later := by
  have eq := next_of_silent silent
  have found : lexer.found = [] := by rw [Lexer.found, errors]; rfl
  cases h with
  | token clean h =>
    have same : lexer.next.token = lexer.advance.next.token := by rw [eq]
    rw [← same]
    refine .token ?_ ?_
    · rw [eq, found, List.nil_append]
      exact clean
    · rw [eq]
      exact h

theorem rest_advance {front text : List Char} (eq : lexer.rest = front ++ text)
    (length : lexer.step.length = front.length) : lexer.advance.rest = text := by
  change lexer.rest.drop _ = _
  rw [length, eq, List.drop_left]

/-- After a step that takes characters, a line starts if the last of them is a line feed. -/
theorem advance_eq {front text : List Char} {c : Char} (eq : lexer.rest = front ++ c :: text)
    (length : lexer.step.length = front.length + 1) :
    lexer.advance =
      { lexer with
        rest := text
        offset := lexer.offset + (front.length + 1)
        lineStart := c == '\n'
        context := lexer.step.context } := by
  have taken : lexer.take (front.length + 1) lexer.step.context =
      { lexer with
        rest := lexer.rest.drop (front.length + 1)
        offset := lexer.offset + (front.length + 1)
        lineStart := lexer.rest[front.length]? == some '\n'
        context := lexer.step.context } := rfl
  rw [advance, length, taken, eq]
  simp

/-- The text that a fragment leaves, as a token; there is none if nothing is left. -/
def runTokens (offset : Nat) (source body : List Char) : List Token :=
  if body.isEmpty then []
  else [⟨.textRun, ⟨offset, source.length⟩, .run (.ofChars body) (String.ofList source)⟩]

/-- The closing label returns to what is around the body. -/
theorem reads_closingLabel (isLabel : IsLabel label) (mode : lexer.context.mode = .closingLabel)
    (held : lexer.context.label = some (String.ofList label)) (front : lexer.rest = label ++ rest) :
    ∃ later, lexer.Reads [⟨.heredocEnd, ⟨lexer.offset, label.length⟩, .text (.ofChars label)⟩]
        later ∧ later.context = { lexer.context.pop with label := none } ∧ later.rest = rest := by
  have step : lexer.step = closingStep lexer.context (label ++ rest) := by
    have ne : lexer.rest ≠ [] := by
      rw [front]
      exact List.append_ne_nil_of_left_ne_nil isLabel.ne_nil _
    rw [step_eq ne, mode, front]
  rw [step_closing lexer.context held isLabel] at step
  have first := Reads.of_step (congrArg Step.token step) (congrArg Step.errors step) (.done _)
  rw [span, step] at first
  exact ⟨_, first, congrArg Step.context step,
    rest_advance front (congrArg Step.length step)⟩

/-- The fragment in front of the closing label is read together with it. -/
theorem reads_last {isNowdoc lineStart : Bool} {source body : List Char}
    (step : lexer.step = closeStep lexer.settings lexer.context isNowdoc lineStart source)
    (dedented : dedentLast source lineStart = ⟨false, body⟩)
    (decoded : decodeFragment lexer.settings isNowdoc body =
      ⟨.ofChars body, false, [String.ofList body]⟩)
    (isLabel : IsLabel label) (held : lexer.context.label = some (String.ofList label))
    (front : lexer.rest = source ++ (label ++ rest)) :
    ∃ later, lexer.Reads (runTokens lexer.offset source body ++
        [⟨.heredocEnd, ⟨lexer.offset + source.length, label.length⟩, .text (.ofChars label)⟩])
        later ∧ later.context = { lexer.context.pop with label := none } ∧ later.rest = rest := by
  obtain ⟨length, context⟩ :=
    closeStep_taken lexer.settings lexer.context isNowdoc lineStart source
  rw [← step] at length context
  have inside : lexer.advance.context = lexer.context.enter .closingLabel := context
  have left : lexer.advance.rest = label ++ rest := rest_advance front length
  have place : lexer.advance.offset = lexer.offset + source.length :=
    congrArg (lexer.offset + ·) length
  have outside : (lexer.context.enter .closingLabel).pop = lexer.context.pop := by
    unfold Context.pop Context.enter
    cases lexer.context.enclosing <;> rfl
  obtain ⟨later, closing, after, rest_⟩ :=
    reads_closingLabel isLabel (by rw [inside]; rfl) (by rw [inside]; exact held) left
  rw [inside, outside] at after
  rw [place] at closing
  refine ⟨later, ?_, after, rest_⟩
  rw [closeStep_eq, dedented] at step
  dsimp only [Dedented.errors] at step
  rw [decoded] at step
  rcases nil : body.isEmpty with _ | _
  · rw [nil] at step
    have token : lexer.step.token = some (.textRun,
        .run (.ofChars body) (String.ofList source)) := congrArg Step.token step
    have all := Reads.of_step token (congrArg Step.errors step) closing
    rw [span, length] at all
    simpa [runTokens, nil] using all
  · rw [nil] at step
    have all := Reads.of_silent (congrArg Step.token step) (congrArg Step.errors step) closing
    simpa [runTokens, nil] using all

/-- The token of an opening. -/
def openingToken (offset : Nat) (isNowdoc : Bool) (label : List Char) : Token :=
  ⟨.heredocStart, ⟨offset, (opening isNowdoc label).length⟩, .text (.ofChars label)⟩

/-- A lexer that has taken an opening, with a text in front. -/
def opened (lexer : Lexer) (isNowdoc : Bool) (label text : List Char) : Lexer :=
  { lexer with
    rest := text
    offset := lexer.offset + (opening isNowdoc label).length
    lineStart := true
    context := { lexer.context with label := some (String.ofList label) }.push
      (if isNowdoc then .nowdoc else .heredoc) }

/-- An opening is taken in one step, after which a line starts if the opening ends in a line
feed. -/
theorem advance_openingWith {isNowdoc : Bool} {front text : List Char} {c : Char}
    (isLabel : IsLabel label) (mode : lexer.context.mode = .code)
    (ends : lineEndLength? (front ++ c :: text) = some (front.length + 1))
    (eq : lexer.rest = openingWith (front ++ [c]) isNowdoc label ++ text) :
    lexer.step.token = some (.heredocStart, .text (.ofChars label)) ∧ lexer.step.errors = [] ∧
      lexer.span = ⟨lexer.offset, (openingWith (front ++ [c]) isNowdoc label).length⟩ ∧
      lexer.advance =
        { lexer with
          rest := text
          offset := lexer.offset + (openingWith (front ++ [c]) isNowdoc label).length
          lineStart := c == '\n'
          context := { lexer.context with label := some (String.ofList label) }.push
            (if isNowdoc then .nowdoc else .heredoc) } := by
  have ne : lexer.rest ≠ [] := by rw [eq]; exact List.cons_ne_nil _ _
  have step := step_of_code mode ne
  rw [eq, step_openingWith _ _ _ isLabel isNowdoc (by simpa using ends)] at step
  have split : lexer.rest = (['<', '<', '<'] ++
      (quotes isNowdoc ++ (label ++ (quotes isNowdoc ++ front)))) ++ c :: text := by
    simp [eq, openingWith]
  have length : (openingWith (front ++ [c]) isNowdoc label).length = (['<', '<', '<'] ++
      (quotes isNowdoc ++ (label ++ (quotes isNowdoc ++ front)))).length + 1 := by
    simp [openingWith]
    omega
  refine ⟨congrArg Step.token step, congrArg Step.errors step, by rw [span, step]; rfl, ?_⟩
  rw [advance_eq split (by rw [step, ← length]; rfl), step, length]
  rfl

/-- After the opening come the tokens of the body. -/
theorem Reads.of_opening {isNowdoc : Bool} {text : List Char} (isLabel : IsLabel label)
    (mode : lexer.context.mode = .code) (front : lexer.rest = opening isNowdoc label ++ text)
    (h : (lexer.opened isNowdoc label text).Reads tokens later) :
    lexer.Reads (openingToken lexer.offset isNowdoc label :: tokens) later := by
  obtain ⟨token, errors, span, inside⟩ :=
    @advance_openingWith label lexer isNowdoc [] text '\n' isLabel mode rfl front
  have first := Reads.of_step token errors (by rw [inside]; exact h)
  rw [span] at first
  exact first

/-! ### Nowdocs -/

/-- A text written as a nowdoc, with its lines and the closing label indented. -/
def nowdoc (label : List Char) (n : Nat) (lines : List (List Char)) : List Char :=
  opening true label ++ (indented n lines ++ (spaces n ++ label))

/-- The tokens of a text written as a nowdoc; an empty text makes no token of its own. -/
def nowdocTokens (offset : Nat) (label : List Char) (n : Nat) (lines : List (List Char)) :
    List Token :=
  let bodyStart := offset + (opening true label).length
  let body := indented n lines ++ spaces n
  openingToken offset true label :: (runTokens bodyStart body (List.intercalate ['\n'] lines) ++
    [⟨.heredocEnd, ⟨bodyStart + body.length, label.length⟩, .text (.ofChars label)⟩])

theorem step_of_nowdoc (mode : lexer.context.mode = .nowdoc) (ne : lexer.rest ≠ []) :
    lexer.step = nowdocStep lexer.settings lexer.context lexer.lineStart lexer.rest := by
  rw [step_eq ne, mode]

/-- The body of a nowdoc is one fragment. -/
theorem step_nowdoc {first source : List Char} {more : List (List Char)} {n : Nat}
    (body : Body label first more lexer.lineStart) (ends : nextIs isLabelPart rest = false)
    (mode : lexer.context.mode = .nowdoc)
    (held : lexer.context.label = some (String.ofList label))
    (eq : source = lead n lexer.lineStart ++ joined n (first :: more ++ [[]]))
    (front : lexer.rest = source ++ (label ++ rest)) :
    lexer.step = closeStep lexer.settings lexer.context true lexer.lineStart source := by
  have ne : lexer.rest ≠ [] := by
    rw [front]
    exact List.append_ne_nil_of_right_ne_nil _
      (List.append_ne_nil_of_left_ne_nil body.isLabel.ne_nil _)
  obtain ⟨found, search, labelStart⟩ := body.exists_found ends n
  rw [← eq] at search labelStart
  rw [step_of_nowdoc mode ne, nowdocStep, held]
  dsimp only
  rw [String.toList_ofList, front, search]
  dsimp only
  rw [labelStart, List.take_left]

/-- Lines of text that were written as a nowdoc in code are read back as they are, whatever follows
the closing label, and the lexer goes on in the modes it was in. -/
theorem readsNowdoc (mode : lexer.context.mode = .code) (isLabel : IsLabel label)
    {lines : List (List Char)} (ne : lines ≠ []) (h : ∀ line ∈ lines, IsLine label line)
    (ends : nextIs isLabelPart rest = false) (n : Nat) :
    ∃ later, { lexer with rest := nowdoc label n lines ++ rest }.Reads
        (nowdocTokens lexer.offset label n lines) later ∧
      later.context = { lexer.context with label := none } ∧ later.rest = rest := by
  obtain ⟨first, more, rfl⟩ := List.exists_cons_of_ne_nil ne
  have whole := h first List.mem_cons_self
  have body : Body label first more true :=
    ⟨isLabel, whole.noFeed, fun _ => whole, fun line mem => h line (List.mem_cons_of_mem _ mem)⟩
  have source : indented n (first :: more) ++ spaces n =
      lead n true ++ joined n (first :: more ++ [[]]) := indented_append n _
  have written : nowdoc label n (first :: more) ++ rest = opening true label ++
      (indented n (first :: more) ++ spaces n ++ (label ++ rest)) := by
    simp [nowdoc]
  rw [written]
  have step : (lexer.opened true label
      (indented n (first :: more) ++ spaces n ++ (label ++ rest))).step = _ :=
    step_nowdoc body ends rfl rfl source rfl
  obtain ⟨later, reads, context, left⟩ :=
    reads_last step (source ▸ body.dedentLast whole.noReturn n) rfl isLabel rfl rfl
  exact ⟨later, Reads.of_opening isLabel mode rfl reads, context, left⟩

/-- Lines that nearly are a closing label, blank ones, and characters that mean something in other
strings. -/
def nearLabel : List (List Char) :=
  ["EOT_", "  EOTX", "", "    ", "EO T\tEOT", "\\n$a\x7b$b\x7d'\"`", " "].map String.toList

/-- A nowdoc in the code of an interpolation, which a label follows only after a point. -/
theorem readsNowdoc_nearLabel :
    (start {} [] 7 { mode := .code, enclosing := [.doubleQuoted, .code] }).context.mode = .code ∧
      IsLabel "EOT".toList ∧ nearLabel ≠ [] ∧ (∀ line ∈ nearLabel, IsLine "EOT".toList line) ∧
      nextIs isLabelPart ".X".toList = false ∧
      ∃ later, (start {} (nowdoc "EOT".toList 2 nearLabel ++ ".X".toList) 7
          { mode := .code, enclosing := [.doubleQuoted, .code] }).Reads
            (nowdocTokens 7 "EOT".toList 2 nearLabel) later ∧
        later.context = { mode := .code, enclosing := [.doubleQuoted, .code] } ∧
        later.rest = ".X".toList := by
  have lines : ∀ line ∈ nearLabel, IsLine "EOT".toList line := by decide
  refine ⟨rfl, by decide, by decide, lines, rfl, ?_⟩
  exact @readsNowdoc "EOT".toList ".X".toList
    (start {} [] 7 { mode := .code, enclosing := [.doubleQuoted, .code] }) rfl (by decide) nearLabel
    (by decide) lines rfl 2

end Lexer

end PhpFrontEnd
