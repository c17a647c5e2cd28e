import PhpFrontEnd.Proofs.NowdocText

/-!
# Lines written as heredocs

Lines of text and of variables in braces can be written as a heredoc, all of them indented like the
closing label. They are read back without the indentation, whatever comes after the heredoc
(`Lexer.readsHeredoc`): runs of text and the tokens of variables spell the lines that were written.

The body is read in fragments, for a variable ends the run of text before it, in the middle of a
line or at its start. So the lines are cut at their variables (`LinePiece.Cut`), and what is told of
a body holds for the rest of one, of which the first line may have begun before (`Lexer.InBody`). A
fragment that a variable ends looks for the closing label ahead, the last one ends with it; both
find the same indentation.
-/

namespace PhpFrontEnd

/-- A part of a line in a heredoc. -/
inductive LinePiece where
  | text (chars : List Char)
  /-- a variable in braces -/
  | braced (name : List Char)

namespace LinePiece

/-- Characters that stand for themselves in the lines of a heredoc. -/
def isPlain (c : Char) : Bool := c ∉ ['\n', '\r', '\\', '$', '\x7b']

def IsWritable : LinePiece → Prop
  | .text chars => ∀ c ∈ chars, isPlain c
  | .braced name => IsLabel name

instance : (piece : LinePiece) → Decidable piece.IsWritable
  | .text chars => List.decidableBAll _ chars
  | .braced name => inferInstanceAs (Decidable (IsLabel name))

def write : LinePiece → List Char
  | .text chars => chars
  | .braced name => '\x7b' :: '$' :: (name ++ ['\x7d'])

/-- A line as it is written. -/
def writeLine (line : List LinePiece) : List Char := line.flatMap write

theorem writeLine_braced (front back : List LinePiece) (name : List Char) :
    writeLine (front ++ .braced name :: back) =
      writeLine front ++ '\x7b' :: '$' :: (name ++ '\x7d' :: writeLine back) := by
  simp [writeLine, write]

def isText : LinePiece → Bool
  | .text _ => true
  | .braced _ => false

/-- Text without variables is plain. -/
theorem isPlain_of_isText {line : List LinePiece} (writable : ∀ piece ∈ line, piece.IsWritable)
    (h : ∀ piece ∈ line, piece.isText) : ∀ c ∈ writeLine line, isPlain c := by
  intro c mem
  obtain ⟨piece, mem, inPiece⟩ := List.mem_flatMap.1 mem
  have text := h piece mem
  have plain := writable piece mem
  cases piece with
  | text chars => exact plain c inPiece
  | braced name => cases text

/-- Lines cut at their first variable, and what comes after it cut again. -/
inductive Cut : List (List LinePiece) → Prop where
  | text {lines : List (List LinePiece)} (h : ∀ line ∈ lines, ∀ piece ∈ line, piece.isText) :
    Cut lines
  | braced {full later : List (List LinePiece)} {front back : List LinePiece} {name : List Char}
    (h : ∀ line ∈ full ++ [front], ∀ piece ∈ line, piece.isText) (cut : Cut (back :: later)) :
    Cut (full ++ (front ++ .braced name :: back) :: later)

/-- An empty line in front is a line before the first variable. -/
theorem Cut.cons_nil {lines : List (List LinePiece)} (h : Cut lines) : Cut ([] :: lines) := by
  cases h with
  | text h => exact .text (List.forall_mem_cons.2 ⟨fun _ mem => absurd mem List.not_mem_nil, h⟩)
  | @braced full later front back name h cut =>
    refine @Cut.braced ([] :: full) later front back name ?_ cut
    exact List.forall_mem_cons.2 ⟨fun _ mem => absurd mem List.not_mem_nil, h⟩

/-- Text in front is text before the first variable. -/
theorem Cut.cons_text {line : List LinePiece} {more : List (List LinePiece)}
    (h : Cut (line :: more)) (chars : List Char) : Cut ((.text chars :: line) :: more) := by
  generalize eq : line :: more = lines at h
  cases h with
  | text h =>
    subst eq
    obtain ⟨own, others⟩ := List.forall_mem_cons.1 h
    exact .text (List.forall_mem_cons.2 ⟨List.forall_mem_cons.2 ⟨rfl, own⟩, others⟩)
  | @braced full later front back name h cut =>
    rcases full with _ | ⟨first, full⟩
    · obtain ⟨rfl, rfl⟩ := List.cons.inj eq
      obtain ⟨own, -⟩ := List.forall_mem_cons.1 h
      refine @Cut.braced [] more (.text chars :: front) back name ?_ cut
      exact List.forall_mem_singleton.2 (List.forall_mem_cons.2 ⟨rfl, own⟩)
    · obtain ⟨rfl, rfl⟩ := List.cons.inj eq
      obtain ⟨own, others⟩ := List.forall_mem_cons.1 h
      refine @Cut.braced ((.text chars :: line) :: full) later front back name ?_ cut
      exact List.forall_mem_cons.2 ⟨List.forall_mem_cons.2 ⟨rfl, own⟩, others⟩

/-- Any lines can be cut at their first variable. -/
theorem Cut.of_lines (lines : List (List LinePiece)) : Cut lines := by
  induction lines with
  | nil => exact .text fun _ mem => absurd mem List.not_mem_nil
  | cons line more ih =>
    induction line with
    | nil => exact ih.cons_nil
    | cons piece line ih =>
      cases piece with
      | text chars => exact ih.cons_text chars
      | braced name =>
        refine @Cut.braced [] more [] line name ?_ ih
        exact List.forall_mem_singleton.2 fun _ mem => absurd mem List.not_mem_nil

end LinePiece

open LinePiece

variable {label rest : List Char}

namespace HeredocBody

open Heredoc

variable {first front tail : List Char} {more full later : List (List Char)} {lineStart : Bool}
  {c : Char}

/-! ## Finding the end of a fragment -/

/-- A plain character neither ends nor escapes anything. -/
theorem ne_of_isPlain (h : isPlain c) {d : Char} (mem : d ∈ ['\n', '\r', '\\', '$', '\x7b']) :
    c ≠ d := by
  rintro rfl
  exact of_decide_eq_true h mem

theorem not_mem_of_plain (plain : ∀ c ∈ front, isPlain c) {d : Char}
    (mem : d ∈ ['\n', '\r', '\\', '$', '\x7b']) : d ∉ front :=
  fun inFront => ne_of_isPlain (plain d inFront) mem rfl

/-- Characters that begin neither an escape nor an interpolation belong to the fragment. -/
theorem fragment_cons (escape : c ≠ '\\') (dollar : c ≠ '$') (brace : c ≠ '\x7b')
    (text : List Char) :
    fragment label false (c :: text) = passed 1 (fragment label (c == '\n') text) := by
  have starts : Interpolation.startsAt (c :: text) = false := by
    unfold Interpolation.startsAt
    split
    · rename_i eq
      exact absurd (List.cons.inj eq).1 dollar
    · rename_i eq
      exact absurd (List.cons.inj eq).1 brace
    · rfl
  exact fragment_passes rfl starts fun eq => absurd eq escape

/-- Characters that belong to a fragment, and after which no line starts. -/
def isCarried (c : Char) : Bool := c ∉ ['\n', '\\', '$', '\x7b']

theorem isCarried_of_isPlain (h : isPlain c) : isCarried c := by
  simp only [isPlain, isCarried, List.mem_cons, not_or, decide_eq_true_eq] at h ⊢
  exact ⟨h.1, h.2.2⟩

theorem carried_of_plain {lines : List (List Char)}
    (plain : ∀ line ∈ lines, ∀ c ∈ line, isPlain c) : ∀ line ∈ lines, ∀ c ∈ line, isCarried c :=
  fun line mem c inLine => isCarried_of_isPlain (plain line mem c inLine)

/-- A fragment goes on over characters at which nothing ends. -/
theorem fragment_carried (carried : ∀ c ∈ front, isCarried c) (text : List Char) :
    fragment label false (front ++ text) = passed front.length (fragment label false text) := by
  induction front with
  | nil => rfl
  | cons c front ih =>
    obtain ⟨own, others⟩ := List.forall_mem_cons.1 carried
    simp only [isCarried, List.mem_cons, List.not_mem_nil, or_false, not_or,
      decide_eq_true_eq] at own
    obtain ⟨feed, escape, dollar, brace⟩ := own
    have newline : (c == '\n') = false := beq_eq_false_iff_ne.2 feed
    rw [List.cons_append, fragment_cons escape dollar brace, newline, ih others, passed_passed]
    rfl

/-- A fragment goes on after the end of a line. -/
theorem fragment_line (carried : ∀ c ∈ front, isCarried c) (text : List Char) :
    fragment label false (front ++ '\n' :: text) =
      passed (front.length + 1) (fragment label true text) := by
  rw [fragment_carried carried, fragment_cons (by decide) (by decide) (by decide), passed_passed,
    Nat.add_comm]
  rfl

/-- Without a closing label in front it does not matter whether a line starts. -/
theorem fragment_of_body {text : List Char}
    (h : lineStart → closingIndent? label text = none) :
    fragment label lineStart text = fragment label false text := by
  cases lineStart with
  | false => rfl
  | true => exact fragment_of_not_closing (h rfl)

theorem isPlain_lead (n : Nat) (lineStart : Bool) : ∀ c ∈ lead n lineStart, isPlain c := by
  intro c mem
  cases lineStart with
  | false => cases mem
  | true =>
    obtain rfl := List.eq_of_mem_replicate mem
    rfl

/-- Indentation is plain, so that indented lines are plain if they were. -/
theorem isPlain_written (plain : ∀ line ∈ first :: more, ∀ c ∈ line, isPlain c) (n : Nat)
    (lineStart : Bool) : ∀ line ∈ written n lineStart first more, ∀ c ∈ line, isPlain c := by
  obtain ⟨own, others⟩ := List.forall_mem_cons.1 plain
  refine List.forall_mem_cons.2 ⟨?_, List.forall_mem_map.2 fun line mem => ?_⟩
  · exact List.forall_mem_append.2 ⟨isPlain_lead n lineStart, own⟩
  · exact List.forall_mem_append.2 ⟨isPlain_lead n true, others line mem⟩

/-- The first line of a body belongs to the fragment, if it has no variable. -/
theorem fragment_first (h : Ragged label lineStart (first :: more))
    (carried : ∀ c ∈ first, isCarried c) (text : List Char) :
    fragment label lineStart (first ++ '\n' :: text) =
      passed (first.length + 1) (fragment label true text) := by
  rw [fragment_of_body (h.not_closing text), fragment_line carried]

/-- Lines without variables are one fragment, which the closing label ends. -/
theorem fragment_label (h : Ragged label lineStart (first :: more))
    (carried : ∀ line ∈ first :: more, ∀ c ∈ line, isCarried c) {indent : List Char}
    (blank : ∀ c ∈ indent, isIndent c) (ends : nextIs isLabelPart rest = false) :
    fragment label lineStart (unlines (first :: more) ++ (indent ++ (label ++ rest))) =
      ((unlines (first :: more)).length, .label indent.length) := by
  induction more generalizing first lineStart with
  | nil =>
    rw [unlines_cons_append, fragment_first h (carried first List.mem_cons_self),
      length_unlines_cons]
    exact congrArg (passed _) (fragment_of_closing (closingIndent?_label h.isLabel blank ends))
  | cons second more ih =>
    obtain ⟨own, others⟩ := List.forall_mem_cons.1 carried
    rw [unlines_cons_append, fragment_first h own, ih h.tail others, length_unlines_cons first]
    rfl

/-- A variable ends a fragment, also at the start of a line. -/
theorem fragment_braced (isLabel : IsLabel label) (lineStart : Bool) (text : List Char) :
    fragment label lineStart ('\x7b' :: '$' :: text) = (0, .interpolation) := by
  have notClosing : closingIndent? label ('\x7b' :: '$' :: text) = none := by
    obtain ⟨c, tail, rfl⟩ := List.exists_cons_of_ne_nil isLabel.ne_nil
    have part : isLabelPart c := isLabel.part c List.mem_cons_self
    refine if_neg fun closes => ?_
    rw [Bool.and_eq_true, List.isPrefixOf_iff_prefix] at closes
    obtain ⟨rfl, -⟩ := List.cons_prefix_cons.1 closes.1
    cases part
  rw [fragment_of_body fun _ => notClosing, fragment]
  rfl

/-- Lines up to a variable are one fragment. -/
theorem fragment_interpolation
    (h : Ragged label lineStart (full ++ (front ++ '\x7b' :: '$' :: tail) :: later))
    (plain : ∀ line ∈ full ++ [front], ∀ c ∈ line, isPlain c) (text : List Char) :
    fragment label lineStart (unlines full ++ (front ++ '\x7b' :: '$' :: (tail ++ '\n' :: text))) =
      ((unlines full ++ front).length, .interpolation) := by
  induction full generalizing lineStart with
  | nil =>
    have notClosing := h.not_closing text
    simp only [List.append_assoc, List.cons_append] at notClosing
    change fragment label lineStart (front ++ _) = (front.length, _)
    have carried := carried_of_plain plain front List.mem_cons_self
    rw [fragment_of_body notClosing, fragment_carried carried,
      fragment_braced h.isLabel]
    exact congrArg (·, _) (Nat.zero_add _)
  | cons line full ih =>
    obtain ⟨own, others⟩ := List.forall_mem_cons.1 plain
    rw [unlines_cons_append, fragment_first h fun c mem => isCarried_of_isPlain (own c mem),
      ih h.tail others, unlines_cons_append]
    simp [passed]
    omega

/-- The lines up to the middle of one, as they are written. -/
theorem exists_written (eq : first :: more = full ++ (front ++ tail) :: later)
    (plain : ∀ line ∈ full ++ [front], ∀ c ∈ line, isPlain c) (n : Nat) (lineStart : Bool) :
    ∃ whole part,
      written n lineStart first more = whole ++ (part ++ tail) :: later.map (spaces n ++ ·) ∧
      lead n lineStart ++ joined n (full ++ [front]) = unlines whole ++ part ∧
      ∀ line ∈ whole ++ [part], ∀ c ∈ line, isPlain c := by
  rcases full with _ | ⟨line, full⟩
  · obtain ⟨rfl, rfl⟩ := List.cons.inj eq
    refine ⟨[], lead n lineStart ++ front, ?_, ?_, isPlain_written plain n lineStart⟩
    · rw [written, List.append_assoc]
      rfl
    · rw [List.nil_append, joined_singleton]
      rfl
  · obtain ⟨rfl, rfl⟩ := List.cons.inj eq
    refine ⟨written n lineStart first full, spaces n ++ front, ?_,
      lead_append_joined n lineStart first full front, ?_⟩
    · simp [written]
    · have all := isPlain_written plain n lineStart
      simpa [written] using all

/-- In the middle of a line, the closing label ahead tells the indentation. -/
theorem indentAhead_joined (h : Body label first more false)
    (ends : nextIs isLabelPart rest = false) (n : Nat) :
    indentAhead label (joined n (first :: more ++ [[]]) ++ (label ++ rest)) = spaces n := by
  have split :
      joined n (first :: more ++ [[]]) = unlines (written n false first more) ++ spaces n :=
    lead_append_joined_nil n false first more
  rw [split, List.append_assoc]
  exact (h.ragged n).indentAhead (isIndent_spaces n) ends

/-! ## What fragments are left with -/

/-- A body without backslashes is its own value. -/
theorem decodeBody_of_not_mem {body : List Char} (h : '\\' ∉ body) {rules : EscapeRules}
    (text : rules.binary = false) :
    decodeBody rules body = ⟨.ofChars body, false, [String.ofList body]⟩ := by
  have noEscape : (BodyPiece.list rules body).any BodyPiece.isEscape = false := by
    rw [BodyPiece.list_of_not_mem h, BodyPiece.any_isEscape_plain]
  rw [decodeBody, unescape_eq, noEscape, text]
  rfl

theorem not_mem_joined {d : Char} (plain : ∀ line ∈ full, ∀ c ∈ line, isPlain c)
    (mem : d ∈ ['\\', '$', '\x7b']) : d ∉ joined 0 full := by
  have ne : d ≠ '\n' ∧ d ≠ ' ' := by
    simp only [List.mem_cons, List.not_mem_nil, or_false] at mem
    rcases mem with rfl | rfl | rfl <;> decide
  intro inText
  obtain ⟨line, inLines, inLine⟩ := mem_joined inText ne.1 ne.2
  refine not_mem_of_plain (plain line inLines) ?_ inLine
  simp only [List.mem_cons] at mem ⊢
  exact .inr (.inr mem)

/-- Nothing is decoded in plain lines. -/
theorem decode_plain (settings : Settings) (plain : ∀ line ∈ full, ∀ c ∈ line, isPlain c) :
    decodeFragment settings false (joined 0 full) =
      ⟨.ofChars (joined 0 full), false, [String.ofList (joined 0 full)]⟩ :=
  decodeBody_of_not_mem (not_mem_joined plain (by decide)) rfl

end HeredocBody

/-! ## Reading -/

/-- The text that the tokens of a body stand for. A variable in braces has three tokens; a run of
text has none of these braces in it. -/
inductive Spells : List Token → List Char → Prop where
  | done : Spells [] []
  | run {span : Span} {chars text : List Char} {raw : String} {tokens : List Token}
    (plain : '\x7b' ∉ chars) (h : Spells tokens text) :
    Spells (⟨.textRun, span, .run (.ofChars chars) raw⟩ :: tokens) (chars ++ text)
  | braced {brace nameSpan closing : Span} {name text : List Char} {tokens : List Token}
    (h : Spells tokens text) :
    Spells (⟨.interpolationBrace, brace, .none⟩ :: ⟨.variable, nameSpan, .text (.ofChars name)⟩ ::
      ⟨.mark .rightBrace, closing, .none⟩ :: tokens)
      ('\x7b' :: '$' :: (name ++ '\x7d' :: text))

theorem Context.pop_dropDoc (context : Context) : context.dropDoc.pop = context.pop.dropDoc := by
  unfold Context.pop Context.dropDoc
  cases context.enclosing <;> rfl

/-- In code a label after a dollar sign is a variable, as far as it goes. -/
theorem Code.step_variable (settings : Settings) (context : Context) (start : Nat)
    (isLabel : IsLabel label) (ends : nextIs isLabelPart rest = false) :
    Code.step settings context start ('$' :: (label ++ rest)) =
      .emitShared context .variable (label.length + 1) label := by
  have starts : nextIs isLabelStart (label ++ rest) = true := by
    obtain ⟨c, tail, rfl⟩ := List.exists_cons_of_ne_nil isLabel.ne_nil
    exact isLabel.start
  have taken : Code.step settings context start ('$' :: (label ++ rest)) =
      Interpolation.emitVariable context ('$' :: (label ++ rest)) :=
    if_pos (starts : ('$' == '$' && nextIs isLabelStart (label ++ rest)) = true)
  rw [taken, Interpolation.emitVariable, List.drop_one, List.tail_cons,
    HeredocBody.takeWhile_label isLabel ends]

/-- In code a closing brace is a mark. -/
theorem Code.step_rightBrace (settings : Settings) (context : Context) (start : Nat)
    (rest : List Char) : Code.step settings context start ('\x7d' :: rest) =
      afterMark (.emit context (.mark .rightBrace) 1) .rightBrace := rfl

namespace Lexer

open HeredocBody Heredoc

variable {lexer later : Lexer} {tokens : List Token} {name text first front tail : List Char}
  {more full after : List (List Char)} {n : Nat}

theorem step_of_heredoc (mode : lexer.context.mode = .heredoc) (ne : lexer.rest ≠ []) :
    lexer.step = heredocStep lexer.settings lexer.context lexer.lineStart lexer.rest := by
  rw [step_eq ne, mode]

/-- The fragment that the closing label ends. -/
theorem step_of_label (mode : lexer.context.mode = .heredoc)
    (held : lexer.context.label = some (String.ofList label)) (ne : lexer.rest ≠ [])
    {length width : Nat}
    (found : fragment label lexer.lineStart lexer.rest = (length, .label width)) :
    lexer.step = closeStep lexer.settings lexer.context false lexer.lineStart
      (lexer.rest.take (length + width)) := by
  rw [step_of_heredoc mode ne, heredocStep, held]
  dsimp only
  rw [String.toList_ofList, found]

/-- A fragment that an interpolation ends. -/
theorem step_of_interpolation (mode : lexer.context.mode = .heredoc)
    (held : lexer.context.label = some (String.ofList label)) (ne : lexer.rest ≠ []) {length : Nat}
    (found : fragment label lexer.lineStart lexer.rest = (length, .interpolation))
    (pos : length ≠ 0) :
    lexer.step = fragmentStep lexer.settings lexer.context label lexer.lineStart
      (lexer.rest.take length) (lexer.rest.drop length) := by
  rw [step_of_heredoc mode ne, heredocStep, held]
  dsimp only
  rw [String.toList_ofList, found]
  exact if_neg pos

/-! ### Variables in braces -/

/-- The tokens of a variable in braces. -/
def bracedTokens (offset : Nat) (name : List Char) : List Token :=
  [⟨.interpolationBrace, ⟨offset, 1⟩, .none⟩,
    ⟨.variable, ⟨offset + 1, name.length + 1⟩, .text (.ofChars name)⟩,
    ⟨.mark .rightBrace, ⟨offset + 1 + (name.length + 1), 1⟩, .none⟩]

/-- A lexer that has taken a variable in braces, with a text in front. -/
def pastBraced (lexer : Lexer) (name text : List Char) : Lexer :=
  { lexer with
    rest := text
    offset := lexer.offset + 1 + (name.length + 1) + 1
    lineStart := false
    context := lexer.context.dropDoc }

/-- After a variable in braces the lexer is in the body again. -/
theorem Reads.of_braced (isLabel : IsLabel label)
    (held : lexer.context.label = some (String.ofList label))
    (mode : lexer.context.mode = .heredoc) (isName : IsLabel name)
    (front : lexer.rest = '\x7b' :: '$' :: (name ++ '\x7d' :: text))
    (h : (lexer.pastBraced name text).Reads tokens later) :
    lexer.Reads (bracedTokens lexer.offset name ++ tokens) later := by
  have ne : lexer.rest ≠ [] := by rw [front]; exact List.cons_ne_nil _ _
  have opens : lexer.step = (Step.emit lexer.context .interpolationBrace 1).push .code := by
    rw [step_of_heredoc mode ne, heredocStep, held]
    dsimp only
    rw [String.toList_ofList, front, fragment_braced isLabel]
    rfl
  have inside := @advance_eq lexer [] ('$' :: (name ++ '\x7d' :: text)) '\x7b' front
    (congrArg Step.length opens)
  rw [opens] at inside
  have named : lexer.advance.step = .emitShared (lexer.context.push .code) .variable
      (name.length + 1) name := by
    rw [inside, step_of_code rfl (List.cons_ne_nil _ _)]
    exact Code.step_variable _ _ _ isName rfl
  have left : lexer.advance.advance.rest = '\x7d' :: text := by
    refine @rest_advance _ ('$' :: name) _ ?_ (congrArg Step.length named)
    rw [inside]
    rfl
  have context : lexer.advance.advance.context = lexer.context.push .code :=
    congrArg Step.context named
  have offset : lexer.advance.advance.offset = lexer.offset + 1 + (name.length + 1) := by
    change lexer.offset + lexer.step.length + lexer.advance.step.length = _
    rw [opens, named]
    rfl
  have closes : lexer.advance.advance.step =
      (Step.emit (lexer.context.push .code).dropDoc (.mark .rightBrace) 1).pop := by
    rw [step_of_code (by rw [context]; rfl) (by rw [left]; exact List.cons_ne_nil _ _), left,
      context]
    exact Code.step_rightBrace _ _ _ _
  have past : lexer.advance.advance.advance = lexer.pastBraced name text := by
    rw [@advance_eq lexer.advance.advance [] text '\x7d' left (congrArg Step.length closes), closes,
      offset]
    rfl
  have third := Reads.of_step (congrArg Step.token closes) (congrArg Step.errors closes) (past ▸ h)
  have second :=
    Reads.of_step (congrArg Step.token named) (congrArg Step.errors named) third
  have all := Reads.of_step (congrArg Step.token opens) (congrArg Step.errors opens) second
  have begins : lexer.advance.offset = lexer.offset + 1 := by rw [inside]; rfl
  simp only [span, offset, begins, congrArg Step.length closes, congrArg Step.length named,
    congrArg Step.length opens] at all
  exact all

/-! ### Bodies -/

/-- A lexer in the body of a heredoc, with lines and then the closing label in front. The first
line may have begun before. -/
structure InBody (lexer : Lexer) (label first : List Char) (more : List (List Char)) (n : Nat)
    (rest : List Char) : Prop where
  body : Body label first more lexer.lineStart
  mode : lexer.context.mode = .heredoc
  held : lexer.context.label = some (String.ofList label)
  front : lexer.rest =
    lead n lexer.lineStart ++ joined n (first :: more ++ [[]]) ++ (label ++ rest)

/-- A lexer that reads the rest of a body, up to and with the closing label. -/
def ReadsBody (lexer : Lexer) (label text : List Char) (length : Nat) (rest : List Char) : Prop :=
  ∃ body later, lexer.Reads (body ++ [⟨.heredocEnd, ⟨lexer.offset + length, label.length⟩,
      .text (.ofChars label)⟩]) later ∧ Spells body text ∧
    later.context.mode = lexer.context.pop.mode ∧
    later.context.enclosing = lexer.context.pop.enclosing ∧ later.rest = rest

theorem InBody.rest_ne_nil (h : lexer.InBody label first more n rest) : lexer.rest ≠ [] := by
  rw [h.front]
  exact List.append_ne_nil_of_right_ne_nil _
    (List.append_ne_nil_of_left_ne_nil h.body.isLabel.ne_nil _)

/-- A run spells its characters, and no run spells none. -/
theorem spells_runTokens {offset : Nat} {source chars : List Char} (plain : '\x7b' ∉ chars)
    (h : Spells tokens text) :
    Spells (runTokens offset source chars ++ tokens) (chars ++ text) := by
  cases nil : chars.isEmpty with
  | true =>
    rw [List.isEmpty_iff.1 nil]
    exact h
  | false =>
    rw [runTokens, nil]
    exact .run plain h

/-- Lines without variables are read up to the closing label. -/
theorem InBody.readsBody_plain (h : lexer.InBody label first more n rest)
    (plain : ∀ line ∈ first :: more, ∀ c ∈ line, isPlain c)
    (ends : nextIs isLabelPart rest = false) :
    lexer.ReadsBody label (joined 0 (first :: more))
      (lead n lexer.lineStart ++ joined n (first :: more ++ [[]])).length rest := by
  have step : lexer.step = closeStep lexer.settings lexer.context false lexer.lineStart
      (lead n lexer.lineStart ++ joined n (first :: more ++ [[]])) := by
    have last : fragment label lexer.lineStart
        (unlines (written n lexer.lineStart first more) ++ (spaces n ++ (label ++ rest))) =
          ((unlines (written n lexer.lineStart first more)).length, .label (spaces n).length) :=
      fragment_label (h.body.ragged n)
        (carried_of_plain (isPlain_written plain n lexer.lineStart)) (isIndent_spaces n) ends
    rw [← List.append_assoc, ← lead_append_joined_nil, ← h.front] at last
    rw [step_of_label h.mode h.held h.rest_ne_nil last, h.front, lead_append_joined_nil,
      ← List.length_append, List.take_left]
  have noReturn : '\r' ∉ first := not_mem_of_plain (plain first List.mem_cons_self) (by decide)
  obtain ⟨later, reads, context, left⟩ := reads_last step (h.body.dedentLast noReturn n)
    (decode_plain _ plain) h.body.isLabel h.held h.front
  have spells := @spells_runTokens [] [] lexer.offset
    (lead n lexer.lineStart ++ joined n (first :: more ++ [[]])) _
    (not_mem_joined plain (by decide)) .done
  rw [List.append_nil, List.append_nil] at spells
  exact ⟨_, later, reads, spells, by rw [context], by rw [context], left⟩

/-- Lines up to a variable are read as one run, unless there is nothing. -/
theorem InBody.exists_run (h : lexer.InBody label first more n rest)
    (eq : first :: more = full ++ (front ++ '\x7b' :: '$' :: tail) :: after)
    (plain : ∀ line ∈ full ++ [front], ∀ c ∈ line, isPlain c)
    (ends : nextIs isLabelPart rest = false) : ∃ run inside,
      (∀ {tokens later}, Reads inside tokens later → lexer.Reads (run ++ tokens) later) ∧
      (∀ {tokens text}, Spells tokens text →
        Spells (run ++ tokens) (joined 0 (full ++ [front]) ++ text)) ∧
      inside.context = lexer.context ∧
      inside.offset =
        lexer.offset + (lead n lexer.lineStart ++ joined n (full ++ [front])).length ∧
      inside.rest = joined n (('\x7b' :: '$' :: tail) :: after ++ [[]]) ++ (label ++ rest) := by
  obtain ⟨first', more', eq'⟩ := List.exists_cons_of_ne_nil (show full ++ [front] ≠ [] by simp)
  have noFeeds : ∀ line ∈ first' :: more', '\n' ∉ line := fun line mem =>
    not_mem_of_plain (plain line (eq' ▸ mem)) (by decide)
  have split : lexer.rest = lead n lexer.lineStart ++ joined n (full ++ [front]) ++
      (joined n (('\x7b' :: '$' :: tail) :: after ++ [[]]) ++ (label ++ rest)) := by
    rw [h.front, eq, List.append_assoc full, List.cons_append,
      ← joined_append n full front ('\x7b' :: '$' :: tail) (after ++ [[]]), List.cons_append]
    simp only [List.append_assoc]
  have found : fragment label lexer.lineStart lexer.rest =
      ((lead n lexer.lineStart ++ joined n (full ++ [front])).length, .interpolation) := by
    obtain ⟨whole, part, lines, text, plain⟩ := exists_written eq plain n lexer.lineStart
    have ragged := h.body.ragged n
    rw [lines] at ragged
    have search := fragment_interpolation ragged plain
      (spaces n ++ joined n (after ++ [[]]) ++ (label ++ rest))
    rw [split, joined_cons_concat, text, ← search]
    simp
  by_cases nil : lead n lexer.lineStart ++ joined n (full ++ [front]) = []
  · refine ⟨[], lexer, id, fun spells => ?_, rfl, ?_, ?_⟩
    · have noText := dedent_joined noFeeds n lexer.lineStart
      rw [← eq', nil] at noText
      rw [← noText]
      exact spells
    · rw [nil]
      rfl
    · rw [split, nil]
      rfl
  have step : lexer.step = fragmentStep lexer.settings lexer.context label lexer.lineStart
      (lead n lexer.lineStart ++ joined n (full ++ [front]))
      (joined n (('\x7b' :: '$' :: tail) :: after ++ [[]]) ++ (label ++ rest)) := by
    rw [step_of_interpolation h.mode h.held h.rest_ne_nil found
      fun zero => nil (List.length_eq_zero_iff.1 zero), split, List.take_left, List.drop_left]
  have indent : indentAhead label
      (joined n (('\x7b' :: '$' :: tail) :: after ++ [[]]) ++ (label ++ rest)) = spaces n :=
    indentAhead_joined (h.body.after eq) ends n
  rw [fragmentStep_eq, indent, eq', dedentEarlier_joined noFeeds, ← eq'] at step
  dsimp only [Dedented.errors] at step
  rw [decode_plain _ plain] at step
  refine ⟨[_], lexer.advance, Reads.of_step (congrArg Step.token step) (congrArg Step.errors step),
    .run (not_mem_joined plain (by decide)), congrArg Step.context step,
    congrArg (lexer.offset + ·) (congrArg Step.length step),
    rest_advance split (congrArg Step.length step)⟩

/-- A variable in front of lines stays in front of them when they are joined. -/
theorem joined_braced (n : Nat) (name back : List Char) (more : List (List Char)) :
    joined n (('\x7b' :: '$' :: (name ++ '\x7d' :: back)) :: more) =
      '\x7b' :: '$' :: (name ++ '\x7d' :: joined n (back :: more)) := by
  have split := joined_cons_append n ('\x7b' :: '$' :: (name ++ ['\x7d'])) back more
  simpa using split

theorem isPlain_of_texts {lines : List (List LinePiece)}
    (writable : ∀ line ∈ lines, ∀ piece ∈ line, piece.IsWritable)
    (texts : ∀ line ∈ lines, ∀ piece ∈ line, piece.isText) :
    ∀ line ∈ lines.map writeLine, ∀ c ∈ line, isPlain c := by
  intro line mem
  obtain ⟨pieces, inLines, rfl⟩ := List.mem_map.1 mem
  exact isPlain_of_isText (writable pieces inLines) (texts pieces inLines)

/-- Whatever variables are in the lines, the body is read up to the closing label. -/
theorem InBody.readsBody {lines : List (List LinePiece)} (cut : Cut lines)
    (writable : ∀ line ∈ lines, ∀ piece ∈ line, piece.IsWritable)
    (written : lines.map writeLine = first :: more) (h : lexer.InBody label first more n rest)
    (ends : nextIs isLabelPart rest = false) :
    lexer.ReadsBody label (joined 0 (first :: more))
      (lead n lexer.lineStart ++ joined n (first :: more ++ [[]])).length rest := by
  induction cut generalizing lexer first more with
  | text texts =>
    exact h.readsBody_plain (written ▸ isPlain_of_texts writable texts) ends
  | @braced full later front back name texts cut ih =>
    simp only [List.forall_mem_append, List.forall_mem_cons] at writable
    obtain ⟨inFull, ⟨inFront, isName, inBack⟩, inLater⟩ := writable
    have plain := isPlain_of_texts
      (List.forall_mem_append.2 ⟨inFull, List.forall_mem_singleton.2 inFront⟩) texts
    rw [List.map_append, List.map_singleton] at plain
    have eq : first :: more = full.map writeLine ++ (writeLine front ++
        '\x7b' :: '$' :: (name ++ '\x7d' :: writeLine back)) :: later.map writeLine := by
      rw [← written, List.map_append, List.map_cons, writeLine_braced]
    obtain ⟨run, inside, readsRun, spellsRun, context, offset, left⟩ := h.exists_run eq plain ends
    have split : joined n (first :: more ++ [[]]) =
        joined n (full.map writeLine ++ [writeLine front]) ++ '\x7b' :: '$' :: (name ++ '\x7d' ::
          joined n (writeLine back :: later.map writeLine ++ [[]])) := by
      rw [eq, List.append_assoc, List.cons_append, ← joined_append, joined_braced, List.cons_append]
    rw [List.cons_append, joined_braced, List.cons_append, List.cons_append, List.append_assoc,
      List.cons_append] at left
    have past : (inside.pastBraced name
        (joined n (writeLine back :: later.map writeLine ++ [[]]) ++ (label ++ rest))).InBody label
          (writeLine back) (later.map writeLine) n rest := by
      refine ⟨?_, ?_, ?_, rfl⟩
      · refine @Body.after label first more lexer.lineStart (full.map writeLine)
          (later.map writeLine) (writeLine front ++ '\x7b' :: '$' :: (name ++ ['\x7d']))
          (writeLine back) h.body ?_
        simpa using eq
      · exact (congrArg Context.mode context).trans h.mode
      · exact (congrArg Context.label context).trans h.held
    obtain ⟨body, last, reads, spells, mode, enclosing, after⟩ :=
      ih (List.forall_mem_cons.2 ⟨inBack, inLater⟩) rfl past
    have outside : (inside.pastBraced name
        (joined n (writeLine back :: later.map writeLine ++ [[]]) ++ (label ++ rest))).context.pop =
          lexer.context.pop.dropDoc := by
      rw [← Context.pop_dropDoc, ← context]
      rfl
    have all := readsRun (Reads.of_braced h.body.isLabel (context ▸ h.held) (context ▸ h.mode)
      isName left reads)
    have total : (inside.pastBraced name
        (joined n (writeLine back :: later.map writeLine ++ [[]]) ++ (label ++ rest))).offset +
          (lead n false ++ joined n (writeLine back :: later.map writeLine ++ [[]])).length =
        lexer.offset + (lead n lexer.lineStart ++ joined n (first :: more ++ [[]])).length := by
      rw [split, pastBraced, offset]
      simp [lead]
      omega
    refine ⟨run ++ (bracedTokens inside.offset name ++ body), last, ?_, ?_, ?_, ?_, after⟩
    · rw [← total, List.append_assoc, List.append_assoc]
      exact all
    · rw [eq, ← joined_append, joined_braced]
      exact spellsRun (.braced spells)
    · rw [mode, outside]
      rfl
    · rw [enclosing, outside]
      rfl

/-- Lines written as a heredoc, each of them and the closing label indented. -/
def heredoc (label : List Char) (n : Nat) (lines : List (List LinePiece)) : List Char :=
  opening false label ++ (indented n (lines.map writeLine) ++ (spaces n ++ label))

/-- The token of the closing label of lines that were written as a heredoc. -/
def heredocEndToken (offset : Nat) (label : List Char) (n : Nat) (lines : List (List LinePiece)) :
    Token :=
  let length := (opening false label).length + (indented n (lines.map writeLine) ++ spaces n).length
  ⟨.heredocEnd, ⟨offset + length, label.length⟩, .text (.ofChars label)⟩

/-- Lines of text and of variables in braces that were written as a heredoc in code are read back,
whatever follows the closing label, and the lexer goes on in the modes it was in. -/
theorem readsHeredoc (mode : lexer.context.mode = .code) (isLabel : IsLabel label)
    {lines : List (List LinePiece)} (ne : lines ≠ [])
    (writable : ∀ line ∈ lines, ∀ piece ∈ line, piece.IsWritable)
    (h : ∀ line ∈ lines, IsLine label (writeLine line))
    (ends : nextIs isLabelPart rest = false) (n : Nat) :
    ∃ body later, { lexer with rest := heredoc label n lines ++ rest }.Reads
        (openingToken lexer.offset false label ::
          (body ++ [heredocEndToken lexer.offset label n lines])) later ∧
      Spells body (List.intercalate ['\n'] (lines.map writeLine)) ∧
      later.context.mode = .code ∧ later.context.enclosing = lexer.context.enclosing ∧
      later.rest = rest := by
  obtain ⟨line, others, rfl⟩ := List.exists_cons_of_ne_nil ne
  obtain ⟨whole, areLines⟩ := List.forall_mem_cons.1 h
  have body : Body label (writeLine line) (others.map writeLine) true :=
    ⟨isLabel, whole.noFeed, fun _ => whole, List.forall_mem_map.2 areLines⟩
  have source : indented n ((line :: others).map writeLine) ++ spaces n =
      lead n true ++ joined n ((line :: others).map writeLine ++ [[]]) := indented_append n _
  have inside : (lexer.opened false label
      (lead n true ++ joined n ((line :: others).map writeLine ++ [[]]) ++
        (label ++ rest))).InBody label (writeLine line) (others.map writeLine) n rest :=
    ⟨body, rfl, rfl, rfl⟩
  obtain ⟨tokens, later, reads, spells, mode', enclosing, left⟩ :=
    inside.readsBody (.of_lines _) writable rfl ends
  have written : heredoc label n (line :: others) ++ rest = opening false label ++
      (lead n true ++ joined n ((line :: others).map writeLine ++ [[]]) ++ (label ++ rest)) := by
    rw [← source]
    simp [heredoc]
  rw [written]
  refine ⟨tokens, later, Reads.of_opening isLabel mode rfl ?_, spells, mode'.trans mode, enclosing,
    left⟩
  rw [heredocEndToken, source, ← Nat.add_assoc]
  exact reads

/-- Variables at the start of lines and one after another, blank lines, deeper indentation, and text
that nearly is the closing label. -/
def mixedLines : List (List LinePiece) :=
  [[.text "  a ".toList, .braced "b".toList, .text "\x7d'".toList], [], [.braced "EOT".toList],
    [.text "    ".toList], [.text " EOT_".toList, .braced "x".toList, .braced "y".toList],
    [.text "EOTX".toList], [.text "  ".toList, .braced "z".toList], []]

/-- A heredoc in the code of an interpolation. -/
theorem readsHeredoc_mixedLines :
    (start {} [] 7 { mode := .code, enclosing := [.doubleQuoted, .code] }).context.mode = .code ∧
      IsLabel "EOT".toList ∧ mixedLines ≠ [] ∧
      (∀ line ∈ mixedLines, ∀ piece ∈ line, piece.IsWritable) ∧
      (∀ line ∈ mixedLines, IsLine "EOT".toList (writeLine line)) ∧
      nextIs isLabelPart ";".toList = false ∧
      ∃ body later, (start {} (heredoc "EOT".toList 2 mixedLines ++ ";".toList) 7
          { mode := .code, enclosing := [.doubleQuoted, .code] }).Reads
            (openingToken 7 false "EOT".toList ::
              (body ++ [heredocEndToken 7 "EOT".toList 2 mixedLines])) later ∧
        Spells body (List.intercalate ['\n'] (mixedLines.map writeLine)) ∧
        later.context.mode = .code ∧ later.context.enclosing = [.doubleQuoted, .code] ∧
        later.rest = ";".toList := by
  have writable : ∀ line ∈ mixedLines, ∀ piece ∈ line, piece.IsWritable := by decide
  have lines : ∀ line ∈ mixedLines, IsLine "EOT".toList (writeLine line) := by decide
  refine ⟨rfl, by decide, List.cons_ne_nil _ _, writable, lines, rfl, ?_⟩
  exact @readsHeredoc "EOT".toList ";".toList
    (start {} [] 7 { mode := .code, enclosing := [.doubleQuoted, .code] }) rfl (by decide)
    mixedLines (List.cons_ne_nil _ _) writable lines rfl 2

end Lexer

end PhpFrontEnd
