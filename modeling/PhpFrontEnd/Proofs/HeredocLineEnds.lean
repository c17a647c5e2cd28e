import PhpFrontEnd.Proofs.HeredocText
import PhpFrontEnd.Proofs.LineEndsInBodies
import PhpFrontEnd.Proofs.Neighbours
import PhpFrontEnd.Proofs.ResumeInBody

/-!
# Line ends of heredocs

The opening of a body may end in a line feed, a carriage return or both. The search for the closing
label knows of line feeds only: a line starts after one and nowhere else. So with a line feed in
every line end, a carriage return before it or not, a body is read to its closing label
(`Lexer.InEnded.reads`), and with carriage returns alone the closing label and everything before it
are read as one run of text (`Lexer.InEnded.takesRun`).
-/

namespace PhpFrontEnd

open LinePiece

variable {label line rest text lineEnd : List Char} {lines : List (List Char)}

namespace HeredocBody

open Heredoc

/-! ## Bodies with one line end -/

/-- The line ends that an opening may have. -/
def lineEnds : List (List Char) := [['\n'], ['\r', '\n'], ['\r']]

/-- Lines, each with the same line end. -/
def endLines (lineEnd : List Char) (lines : List (List Char)) : List Char :=
  lines.flatMap (· ++ lineEnd)

/-- A body between its opening and its closing label, all lines ended in the same way. -/
def endedBy (lineEnd : List Char) (isNowdoc : Bool) (label : List Char)
    (lines : List (List Char)) : List Char :=
  openingWith lineEnd isNowdoc label ++ (endLines lineEnd lines ++ label)

/-- A line of plain text that does not close the body. -/
structure IsTextLine (label line : List Char) : Prop where
  plain : ∀ c ∈ line, isPlain c
  keeps : KeepsOpen label line

instance (label line : List Char) : Decidable (IsTextLine label line) :=
  decidable_of_iff (line.all isPlain ∧ KeepsOpen label line)
    ⟨fun h => ⟨List.all_eq_true.1 h.1, h.2⟩, fun h => ⟨List.all_eq_true.2 h.plain, h.keeps⟩⟩

/-! ### With line feeds -/

/-- A carriage return at the end of a line belongs to what makes a label longer, or comes after
it. -/
theorem keepsOpen_return (isLabel : IsLabel label) (h : KeepsOpen label line) :
    KeepsOpen label (line ++ ['\r']) := by
  intro after eq
  have behind : (line ++ ['\r']).dropWhile isIndent = line.dropWhile isIndent ++ ['\r'] := by
    rw [List.dropWhile_append]
    split
    · rename_i blank
      rw [List.isEmpty_iff.1 blank]
      rfl
    · rfl
  rw [behind] at eq
  rcases List.append_eq_append_iff.1 eq with ⟨more, rfl, last⟩ | ⟨more, same, last⟩
  · rcases more with _ | ⟨c, more⟩
    · -- the line would be the label itself
      cases h [] (by simp)
    · obtain ⟨rfl, -⟩ := List.cons.inj last
      exact absurd (isLabel.part '\r' (by simp)) (by decide)
  · have longer := h more same
    rcases more with _ | ⟨c, more⟩
    · cases longer
    · rw [last]
      exact longer

/-- Lines ended by line feeds, and by something in front of them. -/
theorem endLines_eq_unlines (front : List Char) (lines : List (List Char)) :
    endLines (front ++ ['\n']) lines = unlines (lines.map (· ++ front)) := by
  simp [endLines, unlines, List.flatMap_map]

/-- With a carriage return or without, the lines do not close the body. -/
theorem ragged_of_textLines (isLabel : IsLabel label) (h : ∀ line ∈ lines, IsTextLine label line)
    {front : List Char} (isFront : front = [] ∨ front = ['\r']) :
    Ragged label true (lines.map (· ++ front)) ∧
      ∀ line ∈ lines.map (· ++ front), ∀ c ∈ line, isCarried c := by
  have each (line : List Char) (mem : line ∈ lines) : '\n' ∉ line ++ front ∧
      KeepsOpen label (line ++ front) ∧ ∀ c ∈ line ++ front, isCarried c := by
    obtain ⟨plain, keeps⟩ := h line mem
    have carried : ∀ c ∈ line, isCarried c := fun c inLine => isCarried_of_isPlain (plain c inLine)
    have noFeed : '\n' ∉ line := not_mem_of_plain plain (by decide)
    rcases isFront with rfl | rfl
    · rw [List.append_nil]
      exact ⟨noFeed, keeps, carried⟩
    · refine ⟨by simp [noFeed], keepsOpen_return isLabel keeps, ?_⟩
      exact List.forall_mem_append.2 ⟨carried, List.forall_mem_singleton.2 rfl⟩
  refine ⟨⟨isLabel, ?_, ?_⟩, ?_⟩
  · exact List.forall_mem_map.2 fun line mem => (each line mem).1
  · exact List.forall_mem_map.2 fun line mem => (each line mem).2.1
  · exact List.forall_mem_map.2 fun line mem => (each line mem).2.2

/-- The closing label ends the one fragment that there is. -/
theorem bodyStep_unlines {settings : Settings} {context : Context} {isNowdoc : Bool}
    (mode : context.mode = if isNowdoc then .nowdoc else .heredoc)
    (held : context.label = some (String.ofList label)) (h : Ragged label true lines)
    (carried : ∀ line ∈ lines, ∀ c ∈ line, isCarried c) (ends : nextIs isLabelPart rest = false) :
    bodyStep settings context true (unlines lines ++ (label ++ rest)) =
      closeStep settings context isNowdoc true (unlines lines) := by
  have noIndent : ∀ c ∈ ([] : List Char), isIndent c := nofun
  have here : closingIndent? label (label ++ rest) = some 0 :=
    closingIndent?_label h.isLabel noIndent ends
  cases isNowdoc with
  | false =>
    have found : fragment label true (unlines lines ++ (label ++ rest)) =
        ((unlines lines).length, .label 0) := by
      rcases lines with _ | ⟨first, more⟩
      · exact fragment_of_closing here
      · exact fragment_label h carried noIndent ends
    rw [bodyStep, mode, if_neg (by decide), heredocStep, held]
    dsimp only
    rw [String.toList_ofList, found]
    dsimp only
    rw [Nat.add_zero, List.take_left]
  | true =>
    have found : ClosingLabel.find? label true (unlines lines ++ (label ++ rest)) =
        some ⟨(unlines lines).length, (unlines lines).length⟩ := by
      rcases lines with _ | ⟨first, more⟩
      · change ClosingLabel.find? label true (label ++ rest) = some ⟨0, 0⟩
        rw [ClosingLabel.find?, if_pos rfl, ClosingLabel.here?, here]
        rfl
      · exact h.find? noIndent ends
    have nowdoc : context.mode = .nowdoc := mode
    rw [bodyStep, if_pos nowdoc, nowdocStep, held]
    dsimp only
    rw [String.toList_ofList, found]
    dsimp only
    rw [List.take_left]

/-- What stands in front of the line feeds also stands at the end. -/
theorem intercalate_map_append (front : List Char) (ne : lines ≠ []) :
    List.intercalate ['\n'] (lines.map (· ++ front)) =
      List.intercalate (front ++ ['\n']) lines ++ front := by
  refine (List.append_left_inj ['\n']).1 ?_
  calc List.intercalate ['\n'] (lines.map (· ++ front)) ++ ['\n']
    _ = (lines.map (· ++ front)).flatMap (· ++ ['\n']) := intercalate_concat _ (by simpa using ne)
    _ = lines.flatMap (· ++ (front ++ ['\n'])) := by simp [List.flatMap_map]
    _ = List.intercalate (front ++ ['\n']) lines ++ front ++ ['\n'] := by
      rw [← intercalate_concat _ ne, List.append_assoc]

/-- The body ends before the last line end, with a carriage return or without. -/
theorem finalBody_unlines (h : ∀ line ∈ lines, IsTextLine label line) {front : List Char}
    (isFront : front = [] ∨ front = ['\r'])
    (noFeeds : ∀ line ∈ lines.map (· ++ front), '\n' ∉ line) :
    finalBody (unlines (lines.map (· ++ front))) = List.intercalate (front ++ ['\n']) lines := by
  have complete : (Lines.of (unlines (lines.map (· ++ front)))).complete =
      lines.map (· ++ front) := by
    have cut := @Lines.of_unlines [] _ noFeeds List.not_mem_nil
    rw [List.append_nil] at cut
    rw [cut]
  by_cases nil : lines = []
  · subst nil
    rfl
  rcases isFront with rfl | rfl
  · have noReturn : '\r' ∉ unlines (lines.map (· ++ [])) := by
      intro mem
      obtain ⟨line, inLines, inLine⟩ := List.mem_flatMap.1 mem
      obtain ⟨own, inOwn, rfl⟩ := List.mem_map.1 inLines
      have inText : '\r' ∈ own := by simpa using inLine
      exact not_mem_of_plain (h own inOwn).plain (by decide) inText
    rw [finalBody_of_not_mem noReturn, complete, intercalate_map_append _ nil, List.append_nil]
  · rw [finalBody, complete, intercalate_map_append _ nil, List.getLast?_concat, if_pos rfl,
      List.dropLast_concat]

/-- The body of such lines has no escapes. -/
theorem decode_textLines (settings : Settings) (isNowdoc : Bool)
    (h : ∀ line ∈ lines, IsTextLine label line) {front : List Char}
    (isFront : front = [] ∨ front = ['\r']) :
    decodeFragment settings isNowdoc (List.intercalate (front ++ ['\n']) lines) =
      ⟨.ofChars (List.intercalate (front ++ ['\n']) lines), false,
        [String.ofList (List.intercalate (front ++ ['\n']) lines)]⟩ := by
  have noEscape : '\\' ∉ List.intercalate (front ++ ['\n']) lines := by
    intro mem
    have ne : lines ≠ [] := by
      rintro rfl
      cases mem
    have inLines := List.mem_append_left (front ++ ['\n']) mem
    rw [intercalate_concat _ ne] at inLines
    obtain ⟨line, inLines, inLine⟩ := List.mem_flatMap.1 inLines
    rcases List.mem_append.1 inLine with inLine | last
    · exact not_mem_of_plain (h line inLines).plain (by decide) inLine
    · rcases isFront with rfl | rfl <;> exact absurd last (by decide)
  cases isNowdoc with
  | false => exact decodeBody_of_not_mem noEscape rfl
  | true => rfl

theorem dedentFrom_nothing (text : List Char) : dedentFrom 0 0 text = text := by
  induction text with
  | nil => rfl
  | cons c text ih =>
    rw [dedentFrom, if_neg fun blank => Nat.lt_irrefl 0 blank.1, ite_self, ih]

/-- A label that is not indented takes nothing from the lines. -/
theorem dedentLast_unlines (noFeeds : ∀ line ∈ lines, '\n' ∉ line) :
    dedentLast (unlines lines) true = ⟨false, finalBody (unlines lines)⟩ := by
  have cut := @Lines.of_unlines [] _ noFeeds List.not_mem_nil
  rw [List.append_nil] at cut
  have width : resolve (unlines lines) true = .ok 0 := by
    rw [resolve, cut]
    dsimp only
    split
    · rfl
    · rfl
  rw [dedentLast, width]
  exact congrArg _ (dedentFrom_nothing _)

/-! ### With carriage returns alone -/

theorem lineEndLength?_return {c : Char} (ne : c ≠ '\n') (text : List Char) :
    lineEndLength? ('\r' :: c :: text) = some 1 := by
  unfold lineEndLength?
  split
  · rename_i eq
    exact absurd (List.cons.inj (List.cons.inj eq).2).1 ne
  · rfl
  · rfl
  · rename_i single _
    exact absurd rfl (single _)

theorem isCarried_of_isLabelPart {c : Char} (h : isLabelPart c) : isCarried c := by
  rw [isCarried, decide_eq_true_eq]
  intro mem
  simp only [List.mem_cons, List.not_mem_nil, or_false] at mem
  rcases mem with rfl | rfl | rfl | rfl <;> exact absurd h (by decide)

/-- Neither the lines nor the label have anything that a fragment could end at. -/
theorem carried_return (isLabel : IsLabel label) (h : ∀ line ∈ lines, IsTextLine label line) :
    ∀ c ∈ endLines ['\r'] lines ++ label, isCarried c := by
  refine List.forall_mem_append.2 ⟨fun c mem => ?_, fun c mem => ?_⟩
  · obtain ⟨line, inLines, inLine⟩ := List.mem_flatMap.1 mem
    rcases List.mem_append.1 inLine with inLine | last
    · exact isCarried_of_isPlain ((h line inLines).plain c inLine)
    · rw [List.mem_singleton.1 last]
      rfl
  · exact isCarried_of_isLabelPart (isLabel.part c mem)

/-- A carriage return in front of them is the whole line end of the opening. -/
theorem lineEndLength?_endLines (isLabel : IsLabel label)
    (h : ∀ line ∈ lines, IsTextLine label line) (rest : List Char) :
    lineEndLength? ('\r' :: (endLines ['\r'] lines ++ (label ++ rest))) = some 1 := by
  obtain ⟨c, text, eq⟩ := List.exists_cons_of_ne_nil
    (List.append_ne_nil_of_right_ne_nil (endLines ['\r'] lines) isLabel.ne_nil)
  have carried : isCarried c := carried_return isLabel h c (by rw [eq]; exact List.mem_cons_self)
  rw [← List.append_assoc, eq]
  exact lineEndLength?_return (by rintro rfl; cases carried) _

/-- A step that takes a run of text, to some place at least. -/
def TakesRun (step : Step) (length : Nat) : Prop :=
  (∃ value, step.token = some (.textRun, value)) ∧ length ≤ step.length

section Carried

variable {settings : Settings} {context : Context} {front : List Char} {c : Char}

/-- What is taken in front of a closing label is a run of text if anything in it can be seen. -/
theorem closeStep_takesRun (isNowdoc : Bool) (mem : c ∈ front) (visible : ¬isBlank c)
    {before indent : Nat} (closes : ClosesAt label (front ++ rest) false before indent)
    (far : front.length ≤ before + indent) :
    TakesRun (closeStep settings context isNowdoc false ((front ++ rest).take (before + indent)))
      front.length := by
  obtain ⟨length, -⟩ := closeStep_taken settings context isNowdoc false
    ((front ++ rest).take (before + indent))
  refine ⟨?_, ?_⟩
  · have taken : c ∈ (front ++ rest).take (before + indent) := by
      rw [List.take_append, List.take_of_length_le far]
      exact List.mem_append_left _ mem
    rw [closeStep_eq]
    dsimp only
    split
    · rename_i nil
      exact absurd (closes.isBlank_of_dedentLast (List.isEmpty_iff.1 nil) c taken) visible
    · exact ⟨_, rfl⟩
  · rw [length, List.length_take, List.length_append]
    omega

/-- In the middle of a line everything that a fragment carries along is taken at once, a closing
label in it or not. -/
theorem bodyStep_takesRun (held : context.label = some (String.ofList label))
    (carried : ∀ c ∈ front, isCarried c) (mem : c ∈ front) (visible : ¬isBlank c) :
    TakesRun (bodyStep settings context false (front ++ rest)) front.length := by
  have whole : front.length ≤ (front ++ rest).length := by simp
  rw [bodyStep]
  split
  · have noFeed : '\n' ∉ front := fun feed => absurd (carried _ feed) (by decide)
    rw [nowdocStep, held]
    dsimp only
    rw [String.toList_ofList]
    split
    · rename_i found search
      obtain ⟨indent, labelStart, closes⟩ := ClosingLabel.find?_closesAt search
      have passed : ClosingLabel.find? label false (front ++ rest) =
          (ClosingLabel.ahead? label rest).map (·.shift front.length) :=
        ClosingLabel.ahead?_append noFeed rest
      rw [passed] at search
      obtain ⟨ahead, -, rfl⟩ := Option.map_eq_some_iff.1 search
      rw [labelStart]
      refine closeStep_takesRun true mem visible closes ?_
      simp only [ClosingLabel.shift]
      omega
    · exact ⟨⟨_, rfl⟩, whole⟩
  · have passed := @fragment_carried label front carried rest
    have far : front.length ≤ (fragment label false (front ++ rest)).1 := by
      rw [passed]
      exact Nat.le_add_left _ _
    have closes (indent : Nat) := @fragment_closesAt label (front ++ rest) false indent
    rw [heredocStep, held]
    dsimp only
    rw [String.toList_ofList]
    rcases search : fragment label false (front ++ rest) with ⟨length, last⟩
    rw [search] at far closes
    dsimp only at far closes
    cases last with
    | label indent => exact closeStep_takesRun false mem visible (closes indent rfl) (by omega)
    | interpolation =>
      have pos : length ≠ 0 := by
        have := List.length_pos_of_mem mem
        omega
      dsimp only
      rw [if_neg pos, fragmentStep_eq]
      refine ⟨⟨_, rfl⟩, ?_⟩
      change front.length ≤ ((front ++ rest).take length).length
      rw [List.length_take]
      omega
    | source => exact ⟨⟨_, rfl⟩, whole⟩

end Carried

end HeredocBody

namespace Lexer

open HeredocBody Heredoc

variable {lexer : Lexer}

/-! ## Reading -/

/-- The tokens of a body that is read to its closing label. A body without lines, or of one empty
line, makes no token of its own. -/
def endedTokens (offset : Nat) (lineEnd : List Char) (isNowdoc : Bool) (label : List Char)
    (lines : List (List Char)) : List Token :=
  let opening := openingWith lineEnd isNowdoc label
  let body := endLines lineEnd lines
  ⟨.heredocStart, ⟨offset, opening.length⟩, .text (.ofChars label)⟩ ::
    (runTokens (offset + opening.length) body (List.intercalate lineEnd lines) ++
      [⟨.heredocEnd, ⟨offset + opening.length + body.length, label.length⟩,
        .text (.ofChars label)⟩])

/-- A lexer in a body, with the lines and the closing label in front. -/
structure InEnded (lexer : Lexer) (lineEnd : List Char) (isNowdoc : Bool) (label : List Char)
    (lines : List (List Char)) (rest : List Char) : Prop where
  isLabel : IsLabel label
  texts : ∀ line ∈ lines, IsTextLine label line
  mode : lexer.context.mode = if isNowdoc then .nowdoc else .heredoc
  held : lexer.context.label = some (String.ofList label)
  front : lexer.rest = endLines lineEnd lines ++ (label ++ rest)

variable {isNowdoc : Bool} {front : List Char}

theorem InEnded.step_eq (h : lexer.InEnded lineEnd isNowdoc label lines rest) :
    lexer.step = bodyStep lexer.settings lexer.context lexer.lineStart
      (endLines lineEnd lines ++ (label ++ rest)) := by
  have body : lexer.context.mode.isBody := by
    rw [h.mode]
    cases isNowdoc <;> rfl
  rw [← h.front]
  refine step_body body ?_
  rw [h.front]
  exact List.append_ne_nil_of_right_ne_nil _
    (List.append_ne_nil_of_left_ne_nil h.isLabel.ne_nil _)

/-- With line feeds a body is read up to its closing label. -/
theorem InEnded.reads (h : lexer.InEnded (front ++ ['\n']) isNowdoc label lines rest)
    (isFront : front = [] ∨ front = ['\r']) (starts : lexer.lineStart = true)
    (ends : nextIs isLabelPart rest = false) :
    ∃ later, lexer.Reads (runTokens lexer.offset (endLines (front ++ ['\n']) lines)
          (List.intercalate (front ++ ['\n']) lines) ++
        [⟨.heredocEnd, ⟨lexer.offset + (endLines (front ++ ['\n']) lines).length, label.length⟩,
          .text (.ofChars label)⟩]) later ∧
      later.context = { lexer.context.pop with label := none } ∧ later.rest = rest := by
  obtain ⟨ragged, carried⟩ := ragged_of_textLines h.isLabel h.texts isFront
  have source := endLines_eq_unlines front lines
  have step : lexer.step = closeStep lexer.settings lexer.context isNowdoc lexer.lineStart
      (endLines (front ++ ['\n']) lines) := by
    rw [h.step_eq, source, starts, bodyStep_unlines h.mode h.held ragged carried ends]
  have dedented : dedentLast (endLines (front ++ ['\n']) lines) lexer.lineStart =
      ⟨false, List.intercalate (front ++ ['\n']) lines⟩ := by
    rw [source, starts, dedentLast_unlines ragged.noFeed,
      finalBody_unlines h.texts isFront ragged.noFeed]
  exact reads_last step dedented (decode_textLines _ isNowdoc h.texts isFront) h.isLabel h.held
    h.front

/-- With carriage returns alone a body goes on after its closing label. -/
theorem InEnded.takesRun (h : lexer.InEnded ['\r'] isNowdoc label lines rest)
    (starts : lexer.lineStart = false) :
    TakesRun lexer.step (endLines ['\r'] lines ++ label).length := by
  obtain ⟨c, tail, eq⟩ := List.exists_cons_of_ne_nil h.isLabel.ne_nil
  have inLabel : c ∈ label := by rw [eq]; exact List.mem_cons_self
  have visible : ¬isBlank c := by
    rw [not_isBlank_of_isLabelPart (h.isLabel.part c inLabel)]
    decide
  rw [h.step_eq, starts, ← List.append_assoc]
  exact bodyStep_takesRun h.held (carried_return h.isLabel h.texts)
    (List.mem_append_right _ inLabel) visible

/-- After the opening of a body its lines are in front. -/
theorem inEnded_advance {c : Char} (mode : lexer.context.mode = .code) (isLabel : IsLabel label)
    (texts : ∀ line ∈ lines, IsTextLine label line)
    (eq : lexer.rest = endedBy (front ++ [c]) isNowdoc label lines ++ rest)
    (ends : lineEndLength? (front ++ c :: (endLines (front ++ [c]) lines ++ (label ++ rest))) =
      some (front.length + 1)) :
    lexer.step.token = some (.heredocStart, .text (.ofChars label)) ∧ lexer.step.errors = [] ∧
      lexer.span = ⟨lexer.offset, (openingWith (front ++ [c]) isNowdoc label).length⟩ ∧
      lexer.advance.InEnded (front ++ [c]) isNowdoc label lines rest ∧
      lexer.advance.lineStart = (c == '\n') ∧
      lexer.advance.offset = lexer.offset + (openingWith (front ++ [c]) isNowdoc label).length ∧
      lexer.advance.context.pop =
        { lexer.context with label := some (String.ofList label) } := by
  have split : lexer.rest = openingWith (front ++ [c]) isNowdoc label ++
      (endLines (front ++ [c]) lines ++ (label ++ rest)) := by
    simp [eq, endedBy]
  obtain ⟨token, errors, span, inside⟩ := advance_openingWith isLabel mode ends split
  refine ⟨token, errors, span, ?_⟩
  rw [inside]
  exact ⟨⟨isLabel, texts, rfl, rfl, rfl⟩, rfl, rfl, rfl⟩

/-- **A body whose lines end in line feeds, with carriage returns before them or without, is read
to its closing label; a body whose lines end in carriage returns alone is not.** -/
theorem reads_lineEnds (mode : lexer.context.mode = .code) (isLabel : IsLabel label)
    (texts : ∀ line ∈ lines, IsTextLine label line) (mem : lineEnd ∈ lineEnds)
    (ends : nextIs isLabelPart rest = false) (isNowdoc : Bool) :
    let lexer := { lexer with rest := endedBy lineEnd isNowdoc label lines ++ rest }
    let opening := (openingWith lineEnd isNowdoc label).length
    (lineEnd ≠ ['\r'] → ∃ later,
      lexer.Reads (endedTokens lexer.offset lineEnd isNowdoc label lines) later ∧
      later.context = { lexer.context with label := none } ∧ later.rest = rest) ∧
    (lineEnd = ['\r'] → ∃ span value later,
      lexer.scan.tokens = ⟨.heredocStart, ⟨lexer.offset, opening⟩, .text (.ofChars label)⟩ ::
        ⟨.textRun, span, value⟩ :: later ∧
      span.start = lexer.offset + opening ∧
      (endLines lineEnd lines ++ label).length ≤ span.length) := by
  intro lexer opening
  constructor
  · intro feed
    obtain ⟨front, isFront, rfl⟩ :
        ∃ front, (front = [] ∨ front = ['\r']) ∧ lineEnd = front ++ ['\n'] := by
      simp only [lineEnds, List.mem_cons, List.not_mem_nil, or_false] at mem
      rcases mem with rfl | rfl | rfl
      · exact ⟨[], .inl rfl, rfl⟩
      · exact ⟨['\r'], .inr rfl, rfl⟩
      · exact absurd rfl feed
    have lineEnd (text : List Char) :
        lineEndLength? (front ++ '\n' :: text) = some (front.length + 1) := by
      rcases isFront with rfl | rfl <;> rfl
    obtain ⟨token, errors, span, inside, starts, place, outside⟩ :=
      @inEnded_advance label rest lines lexer isNowdoc front '\n' mode isLabel texts rfl (lineEnd _)
    obtain ⟨later, reads, context, left⟩ := inside.reads isFront starts ends
    have all := Reads.of_step token errors reads
    rw [span, place] at all
    rw [outside] at context
    exact ⟨later, all, context, left⟩
  · rintro rfl
    obtain ⟨token, errors, span, inside, starts, place, -⟩ :=
      @inEnded_advance label rest lines lexer isNowdoc [] '\r' mode isLabel texts rfl
        (lineEndLength?_endLines isLabel texts rest)
    obtain ⟨⟨value, run⟩, far⟩ := inside.takesRun starts
    refine ⟨lexer.advance.span, value, lexer.advance.advance.scan.tokens, ?_, place, far⟩
    rw [scan_tokens_of_token token (by decide), scan_tokens_of_token run (by decide), span]
    rfl

/-- Two lines in an interpolation, as a nowdoc with carriage returns and line feeds and as a heredoc
with carriage returns alone. -/
theorem reads_lineEnds_twoLines :
    let lexer := start {} [] 7 { mode := .code, enclosing := [.doubleQuoted, .code] }
    let lines := ["a b".toList, "  EX".toList]
    let closing := { lexer with
      rest := endedBy ['\r', '\n'] true "E".toList lines ++ ";".toList }
    let missing := { lexer with rest := endedBy ['\r'] false "E".toList lines ++ ";".toList }
    lexer.context.mode = .code ∧ IsLabel "E".toList ∧
      (∀ line ∈ lines, IsTextLine "E".toList line) ∧ ['\r', '\n'] ∈ lineEnds ∧ ['\r'] ∈ lineEnds ∧
      nextIs isLabelPart ";".toList = false ∧
      (∃ later, closing.Reads (endedTokens 7 ['\r', '\n'] true "E".toList lines) later ∧
        later.context = lexer.context ∧ later.rest = ";".toList) ∧
      ∃ span value later, missing.scan.tokens =
          ⟨.heredocStart, ⟨7, 5⟩, .text (.ofChars "E".toList)⟩ :: ⟨.textRun, span, value⟩ :: later ∧
        span.start = 12 ∧ 10 ≤ span.length := by
  intro lexer lines closing missing
  have texts : ∀ line ∈ lines, IsTextLine "E".toList line := by decide
  refine ⟨rfl, by decide, texts, by decide, by decide, rfl, ?_, ?_⟩
  · exact (@reads_lineEnds "E".toList ";".toList ['\r', '\n'] lines lexer rfl (by decide) texts
      (by decide) rfl true).1 (by decide)
  · exact (@reads_lineEnds "E".toList ";".toList ['\r'] lines lexer rfl (by decide) texts
      (by decide) rfl false).2 rfl

/-- A heredoc with one line, in which the closing label is text. -/
theorem scan_misses_label :
    IsLabel "E".toList ∧ (∀ line ∈ ["a".toList], IsTextLine "E".toList line) ∧
      ['\r'] ∈ lineEnds ∧
      (start {} (endedBy ['\r'] false "E".toList ["a".toList]) 0 { mode := .code }).scan.tokens =
        [⟨.heredocStart, ⟨0, 5⟩, .text (.ofChars "E".toList)⟩,
          ⟨.textRun, ⟨5, 3⟩, .run (.ofChars "a\rE".toList) "a\rE"⟩,
          ⟨.endOfSource, ⟨8, 0⟩, .none⟩] := by
  refine ⟨by decide, by decide, by decide, ?_⟩
  have opening : (start {} (endedBy ['\r'] false "E".toList ["a".toList]) 0
      { mode := .code }).step.token = some (.heredocStart, _) := rfl
  have text : (start {} (endedBy ['\r'] false "E".toList ["a".toList]) 0
      { mode := .code }).advance.step.token = some (.textRun, _) := rfl
  rw [scan_tokens_of_token opening nofun, scan_tokens_of_token text nofun, scan_of_nil rfl]
  rfl

end Lexer

end PhpFrontEnd
