import PhpFrontEnd.Proofs.LineEndsInBodies
import PhpFrontEnd.Proofs.LineEndsInCode
import PhpFrontEnd.Proofs.Move
import PhpFrontEnd.Proofs.Scan

/-!
# Scans over other line ends

Put together, the steps of all modes show that a source reads alike with either line ends. Two
lexers over what is left of it take steps that do the same (`Lexer.Alike.step`), after which they
are over the same rest again (`Lexer.Alike.advance`). By induction over the steps they find tokens
of the same kinds and the same problems up to the end (`Lexer.scan_crlf`).
-/

namespace PhpFrontEnd

variable {a b : Context} {text rest : List Char} {c : Char}

/-! ## Code -/

theorem rel_getD {α β : Type} {r : α → β → Prop} {x : Option α} {y : Option β} {a : α} {b : β}
    (h : Option.Rel r x y) (other : r a b) : r (x.getD a) (y.getD b) := by
  cases h with
  | none => exact other
  | some same => exact same

namespace Code

/-- No line end is in the brackets of a heredoc. -/
theorem heredocAt_crlf (text : List Char) : heredocAt (crlf text) = heredocAt text :=
  isPrefixOf_crlf (by decide) text

theorem takes_brackets (h : heredocAt text) : Takes text 3 3 :=
  .of_word (List.isPrefixOf_iff_prefix.1 h) (by decide)

/-- What a step in code begins with, if its first character is not enough to tell. -/
def fronts : List (List Char) :=
  [['#'], ['/', '/'], ['/', '*'], ['?', '>'], ['\\'], ['\x27'], ['"'], ['\x60'], ['('], ['<']]

/-- A number sign begins a comment, unless a bracket follows. -/
theorem step_comment (settings : Settings) (context : Context) (start : Nat)
    (h : ¬nextIs (· == '[') rest) : step settings context start ('#' :: rest) =
      .emitText context .comment (('#' :: rest).take (lineCommentLength ('#' :: rest))) := by
  rw [step]
  rintro tail rfl
  exact h rfl

/-- What is read where nothing stands that begins in a way of its own. -/
theorem step_other (settings : Settings) (context : Context) (start : Nat)
    (h : ∀ front ∈ fronts, ¬front <+: c :: rest) : step settings context start (c :: rest) =
      if isBlank c then .emit context .whitespace ((c :: rest).takeWhile isBlank).length
      else if c == '$' && nextIs isLabelStart rest then
        Interpolation.emitVariable context (c :: rest)
      else if Number.beginsAt (c :: rest) then Number.step context (c :: rest)
      else if c == 'b' || c == 'B' then
        if nextIs (· == '\x27') rest then Quoted.singleStep settings context (c :: rest) 1
        else if nextIs (· == '"') rest then Quoted.doubleStep settings context (c :: rest) 1
        else if heredocAt rest then
          (HeredocBody.openingStep? context (c :: rest) 1).getD (nameStep context (c :: rest))
        else nameStep context (c :: rest)
      else if isLabelStart c then nameStep context (c :: rest)
      else markStep context (c :: rest) := by
  rw [step]
  all_goals
    intros
    subst_vars
    simp [fronts] at h

theorem step_parenthesis (settings : Settings) (context : Context) (start : Nat)
    (rest : List Char) : step settings context start ('(' :: rest) =
      match castAt? ('(' :: rest) with
      | some (type, length) => .emit context (.cast type) length
      | none => markStep context ('(' :: rest) :=
  rfl

/-- A cast has no line end in it. -/
theorem castStep_crlf (settings : Settings) (h : a.Alike b) (start start' : Nat)
    (rest : List Char) : (step settings a start ('(' :: rest)).Alike ('(' :: rest)
      (step settings b start' (crlf ('(' :: rest))) := by
  have mark := markStep_crlf h (show '(' ≠ '\n' by decide) rest
  have same := castAt?_crlf rest
  rw [crlf_cons (by decide)] at mark same ⊢
  rw [step_parenthesis, step_parenthesis, same]
  split
  · rename_i cast
    exact ⟨takes_cast cast, rfl, h, rfl⟩
  · exact mark

/-- A step at an angle bracket. -/
theorem bracketStep_crlf (settings : Settings) (h : a.Alike b) (start start' : Nat)
    (noReturn : '\r' ∉ '<' :: rest) : (step settings a start ('<' :: rest)).Alike ('<' :: rest)
      (step settings b start' (crlf ('<' :: rest))) := by
  have mark := markStep_crlf h (show '<' ≠ '\n' by decide) rest
  have same := heredocAt_crlf ('<' :: rest)
  have opening := @HeredocBody.openingStep?_crlf ('<' :: rest) a b h noReturn 0
  rw [crlf_cons (by decide)] at mark same opening ⊢
  refine rel_ite (by rw [same]) (fun brackets => ?_) fun _ => mark
  exact rel_getD (opening (takes_brackets brackets)) mark

/-- A step at the letter of bytes. -/
theorem letterStep_crlf (settings : Settings) (h : a.Alike b) (letter : c = 'b' ∨ c = 'B')
    (noReturn : '\r' ∉ c :: rest) : Step.Alike (c :: rest)
      (if nextIs (· == '\x27') rest then Quoted.singleStep settings a (c :: rest) 1
        else if nextIs (· == '"') rest then Quoted.doubleStep settings a (c :: rest) 1
        else if heredocAt rest then
          (HeredocBody.openingStep? a (c :: rest) 1).getD (nameStep a (c :: rest))
        else nameStep a (c :: rest))
      (if nextIs (· == '\x27') (crlf rest) then Quoted.singleStep settings b (c :: crlf rest) 1
        else if nextIs (· == '"') (crlf rest) then Quoted.doubleStep settings b (c :: crlf rest) 1
        else if heredocAt (crlf rest) then
          (HeredocBody.openingStep? b (c :: crlf rest) 1).getD (nameStep b (c :: crlf rest))
        else nameStep b (c :: crlf rest)) := by
  have newline : c ≠ '\n' := by
    rcases letter with rfl | rfl <;> decide
  have isLetter : [c] ∈ Quoting.letters := by
    rcases letter with rfl | rfl <;> decide
  have name := nameStep_crlf h (c :: rest)
  have opening := @HeredocBody.openingStep?_crlf (c :: rest) a b h noReturn 1
  rw [crlf_cons newline] at name opening
  rw [nextIs_crlf rfl, nextIs_crlf rfl, heredocAt_crlf]
  refine rel_ite Iff.rfl (fun single => ?_) fun _ => ?_
  · obtain ⟨text, rfl⟩ := exists_cons_of_nextIs single
    rw [crlf_cons (by decide)]
    exact Quoted.singleStep_crlf settings h isLetter text
  refine rel_ite Iff.rfl (fun double => ?_) fun _ => ?_
  · obtain ⟨text, rfl⟩ := exists_cons_of_nextIs double
    rw [crlf_cons (by decide)]
    exact Quoted.doubleStep_crlf settings h isLetter text
  refine rel_ite Iff.rfl (fun brackets => ?_) fun _ => name
  exact rel_getD (opening ((takes_brackets brackets).char newline)) name

/-- A step at a character that alone decides what is read, or is a letter. -/
theorem otherStep_crlf (settings : Settings) (h : a.Alike b) (start start' : Nat)
    (newline : c ≠ '\n') (other : ∀ front ∈ fronts, ¬front <+: c :: rest)
    (noReturn : '\r' ∉ c :: rest) : (step settings a start (c :: rest)).Alike (c :: rest)
      (step settings b start' (crlf (c :: rest))) := by
  have blanks := @Takes.takeWhile isBlank rfl (c :: rest)
  have variable_ := Interpolation.emitVariable_alike h newline rest
  have number := Number.step_crlf h (c :: rest)
  have begins := Number.beginsAt_crlf (c :: rest)
  have name := nameStep_crlf h (c :: rest)
  have mark := markStep_crlf h newline rest
  have other' : ∀ front ∈ fronts, ¬front <+: crlf (c :: rest) := fun front mem =>
    mt (isPrefix_crlf_iff (by revert front; decide)).1 (other front mem)
  rw [crlf_cons newline] at *
  rw [step_other settings a start other, step_other settings b start' other', nextIs_crlf rfl]
  refine rel_ite Iff.rfl (fun _ => ⟨blanks, rfl, h, rfl⟩) fun _ => ?_
  refine rel_ite Iff.rfl (fun _ => variable_) fun _ => ?_
  refine rel_ite (by rw [begins]) (fun _ => number) fun _ => ?_
  refine rel_ite Iff.rfl (fun letter => ?_) fun _ => ?_
  · rw [Bool.or_eq_true, beq_iff_eq, beq_iff_eq] at letter
    exact letterStep_crlf settings h letter noReturn
  exact rel_ite Iff.rfl (fun _ => name) fun _ => mark

/-- A step at a comment, a tag, a quote or the like. -/
theorem frontStep_crlf (settings : Settings) (h : a.Alike b) (start start' : Nat)
    {front : List Char} (mem : front ∈ fronts) (noReturn : '\r' ∉ front ++ rest) :
    (step settings a start (front ++ rest)).Alike (front ++ rest)
      (step settings b start' (crlf (front ++ rest))) := by
  have noReturn' : '\r' ∉ rest := fun mem => noReturn (List.mem_append_right _ mem)
  simp only [fronts, List.mem_cons, List.not_mem_nil, or_false] at mem
  rcases mem with rfl | rfl | rfl | rfl | rfl | rfl | rfl | rfl | rfl | rfl
  · by_cases attribute_ : nextIs (· == '[') rest
    · obtain ⟨text, rfl⟩ := exists_cons_of_nextIs attribute_
      exact ⟨.char (by decide) (.char (by decide) (.none text)), rfl, h, rfl⟩
    · have comment := (takes_lineComment noReturn).taken
      rw [List.singleton_append, crlf_cons (by decide)] at comment ⊢
      rw [step_comment settings a start attribute_,
        step_comment settings b start' (by rwa [nextIs_crlf rfl])]
      exact ⟨comment, rfl, h, rfl⟩
  · exact ⟨(takes_lineComment noReturn).taken, rfl, h, rfl⟩
  · exact blockCommentStep_crlf h start start' rest
  · exact ⟨takes_closeTag noReturn', rfl, h.enter .markup, rfl⟩
  · exact ⟨.char (by decide) (.none rest), rfl, h, rfl⟩
  · exact Quoted.singleStep_crlf settings h (List.mem_cons_self) rest
  · exact Quoted.doubleStep_crlf settings h (List.mem_cons_self) rest
  · exact ⟨.char (by decide) (.none rest), rfl, h.push .backquoted, rfl⟩
  · exact castStep_crlf settings h start start' rest
  · exact bracketStep_crlf settings h start start' noReturn

/-- A step in code does the same over both texts. -/
theorem step_crlf (settings : Settings) (h : a.Alike b) (start start' : Nat)
    (noReturn : '\r' ∉ text) :
    (step settings a start text).Alike text (step settings b start' (crlf text)) := by
  rcases text with _ | ⟨c, rest⟩
  · exact ⟨.none [], rfl, h, rfl⟩
  by_cases newline : c = '\n'
  · subst newline
    exact ⟨.takeWhile rfl _, rfl, h, rfl⟩
  by_cases other : ∀ front ∈ fronts, ¬front <+: c :: rest
  · exact otherStep_crlf settings h start start' newline other noReturn
  · simp only [not_forall, not_not] at other
    obtain ⟨front, mem, text, eq⟩ := other
    rw [← eq] at noReturn ⊢
    exact frontStep_crlf settings h start start' mem noReturn

end Code

namespace Lexer

/-! ## Lexers -/

/-- Lexers of which one has other line ends ahead of it. -/
structure Alike (a b : Lexer) : Prop where
  settings : b.settings = a.settings
  rest : b.rest = crlf a.rest
  noReturn : '\r' ∉ a.rest
  lineStart : b.lineStart = a.lineStart
  context : a.context.Alike b.context

namespace Alike

variable {a b : Lexer}

/-- Both lexers are at the end or neither is. -/
theorem rest_eq_nil_iff (h : a.Alike b) : b.rest = [] ↔ a.rest = [] := by
  rw [h.rest, ← List.isEmpty_iff, isEmpty_crlf, List.isEmpty_iff]

/-- In every mode the lexers take the same. -/
theorem step (h : a.Alike b) : a.step.Alike a.rest b.step := by
  obtain ⟨settings, rest, offset, lineStart, context⟩ := a
  obtain ⟨settings', rest', offset', lineStart', context'⟩ := b
  obtain ⟨sameSettings, sameRest, noReturn, sameLineStart, alike⟩ := h
  dsimp only at sameSettings sameRest noReturn sameLineStart alike ⊢
  subst sameSettings sameRest sameLineStart
  unfold Lexer.step
  dsimp only
  rcases rest with _ | ⟨c, rest⟩
  · exact ⟨.none [], rfl, alike, rfl⟩
  obtain ⟨d, text, eq⟩ : ∃ d text, crlf (c :: rest) = d :: text :=
    List.exists_cons_of_ne_nil fun nil => by
      have empty := isEmpty_crlf (c :: rest)
      rw [nil] at empty
      cases empty
  rw [eq]
  dsimp only
  rw [← eq, alike.mode]
  cases context.mode with
  | markup => exact Markup.step_crlf settings' alike noReturn
  | code => exact Code.step_crlf settings' alike offset offset' noReturn
  | doubleQuoted => exact Quoted.interpolatedStep_crlf settings' alike (by decide) _ _ _
  | singleQuoted => exact Quoted.singleQuotedStep_crlf settings' alike _
  | backquoted => exact Quoted.interpolatedStep_crlf settings' alike (by decide) _ _ _
  | heredoc => exact HeredocBody.heredocStep_crlf settings' alike lineStart' noReturn
  | nowdoc => exact HeredocBody.nowdocStep_crlf settings' alike lineStart' noReturn
  | closingLabel => exact HeredocBody.closingStep_crlf alike _
  | property => exact Interpolation.propertyStep_crlf alike _
  | variableName => exact Interpolation.variableNameStep_crlf alike _
  | offset => exact Interpolation.offsetStep_crlf alike _

/-- Lexers stay alike after a step. -/
theorem advance (h : a.Alike b) : a.advance.Alike b.advance := by
  have step := h.step
  refine ⟨h.settings, ?_, not_mem_drop h.noReturn _, ?_, step.context⟩
  · change b.rest.drop b.step.length = crlf (a.rest.drop a.step.length)
    rw [h.rest, step.takes.drop_eq]
  · change lineStartAfter b.lineStart b.rest b.step.length =
      lineStartAfter a.lineStart a.rest a.step.length
    rw [h.rest, h.lineStart]
    exact step.takes.lineStart_eq a.lineStart

/-- What is found wrong in a step is of the same variant. -/
theorem found (h : a.Alike b) :
    b.found.map (·.error.variant) = a.found.map (·.error.variant) := by
  rw [Lexer.found, Lexer.found, List.map_map, List.map_map]
  exact h.step.variants

/-- The lexers find tokens of the same kinds, and the same problems. -/
theorem scan (h : a.Alike b) : b.scan.tokens.map (·.kind) = a.scan.tokens.map (·.kind) ∧
    b.scan.diagnostics.map (·.error.variant) = a.scan.diagnostics.map (·.error.variant) := by
  induction a using step_induction generalizing b with
  | nil a nil =>
    rw [scan_of_nil nil, scan_of_nil (h.rest_eq_nil_iff.2 nil)]
    exact ⟨rfl, rfl⟩
  | step a ne ih =>
    obtain ⟨kinds, variants⟩ := ih h.advance
    have ne' := mt h.rest_eq_nil_iff.1 ne
    have same := h.step.kind
    rcases token : a.step.token with _ | ⟨kind, value⟩
    · have token' : b.step.token = none := by
        rwa [token, Option.map_none, Option.map_eq_none_iff] at same
      rw [scan_of_silent token, scan_of_silent token']
      exact ⟨kinds, by rw [List.map_append, List.map_append, h.found, variants]⟩
    · rw [token, Option.map_some, Option.map_eq_some_iff] at same
      obtain ⟨⟨kind', value'⟩, token', same⟩ := same
      obtain rfl : kind' = kind := same
      have notEnd := (step_move ne).ne_endOfSource token
      rw [scan_of_token token notEnd, scan_of_token token' notEnd]
      refine ⟨congrArg (kind' :: ·) kinds, ?_⟩
      rw [List.map_append, List.map_append, h.found, variants]

end Alike

variable {source : List Char}

theorem alike_start (settings : Settings) (noReturn : '\r' ∉ source) (offset : Nat) :
    (start settings source offset).Alike (start settings (crlf source) offset) :=
  ⟨rfl, rfl, noReturn, rfl, rfl, rfl, rfl, nofun⟩

/-- **Line ends are read alike.** A carriage return in front of every line feed changes neither the
kinds of the tokens nor the problems that are found. -/
theorem scan_crlf (settings : Settings) (noReturn : '\r' ∉ source) (offset : Nat) :
    (start settings (crlf source) offset).scan.tokens.map (·.kind) =
        (start settings source offset).scan.tokens.map (·.kind) ∧
      (start settings (crlf source) offset).scan.diagnostics.map (·.error.variant) =
        (start settings source offset).scan.diagnostics.map (·.error.variant) :=
  (alike_start settings noReturn offset).scan

/-- Code with a comment, a heredoc and a string that is not closed, each over two lines. -/
def twoLines : List Char :=
  "<?php /* a\n*/ <<<A\n  $x\n\n  A . \"$x\n\\u".toList

theorem scan_crlf_twoLines : '\r' ∉ twoLines ∧ crlf twoLines ≠ twoLines ∧
    (start {} (crlf twoLines)).scan.tokens.map (·.kind) =
        (start {} twoLines).scan.tokens.map (·.kind) ∧
      (start {} (crlf twoLines)).scan.diagnostics.map (·.error.variant) =
        (start {} twoLines).scan.diagnostics.map (·.error.variant) := by
  have noReturn : '\r' ∉ twoLines := by decide
  exact ⟨noReturn, by decide, scan_crlf {} noReturn 0⟩

end Lexer

end PhpFrontEnd
