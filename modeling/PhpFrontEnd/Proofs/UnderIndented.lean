import PhpFrontEnd.Proofs.FragmentChecks
import PhpFrontEnd.Proofs.Reports

/-!
# Lines indented too little

A body of text and of variables in braces is read up to its closing label whatever indentation its
lines have, and a problem is reported on the way if it is wrong. Here it is told exactly when
(`Lexer.heredoc_reports`).

Each fragment is asked for the lines that it starts. Those up to a variable are asked one by one and
those after the last variable at once, where it is also asked that their indentations have a least
one all the way. So every line of the body is asked in the fragment that starts it, with one
exception: a line that begins with a variable is started by the fragment before it, and in front of
a first line there is none (`Lexer.heredoc_passes_first_variable`).

What is reported of a whole body is put together along its variables: a scan up to the closing label
(`Lexer.ClosesBody`) reports what its first step does or the scan after it.
-/

namespace PhpFrontEnd

open LinePiece

/-! ## What a step reports -/

namespace HeredocBody

open Heredoc

theorem indentation_mem_errors_iff {dedented : Dedented} :
    .heredocIndentation ∈ dedented.errors ↔ dedented.wrong := by
  rw [Dedented.errors]
  cases dedented.wrong <;> simp

theorem indentation_mem_append_iff {dedented : Dedented} {decoded : Decoded} {source : List Char} :
    .heredocIndentation ∈ dedented.errors ++ decoded.errors source ↔ dedented.wrong := by
  have other : LexError.heredocIndentation ∉ decoded.errors source := fun mem => by
    cases Step.eq_of_mem_errors mem
  rw [List.mem_append, or_iff_left other, indentation_mem_errors_iff]

/-- The last fragment makes a run of text or nothing, and tells if its indentation is wrong. -/
theorem closeStep_reports_iff (settings : Settings) (context : Context) (lineStart : Bool)
    (source : List Char) :
    let step := closeStep settings context false lineStart source
    (∀ kind value, step.token = some (kind, value) → kind = .textRun) ∧
      (.heredocIndentation ∈ step.errors ↔ (dedentLast source lineStart).wrong) := by
  rw [closeStep_eq]
  dsimp only
  split
  · refine ⟨fun kind value none => ?_, indentation_mem_errors_iff⟩
    cases none
  · refine ⟨fun kind value token => ?_, indentation_mem_append_iff⟩
    exact (Prod.mk.inj (Option.some.inj token)).1.symm

end HeredocBody

namespace Lexer

open HeredocBody Heredoc

variable {lexer later : Lexer} {label rest : List Char} {reported : Prop} {tokens : List Token}

/-! ## Up to the closing label -/

/-- The tokens from inside a body up to its end, and what is found on the way. -/
def bodyScan (lexer : Lexer) : Scan := lexer.scanUntil (· == .heredocEnd)

/-- A body that ends at its closing label, with a text behind it, and of which it may be reported
that it is indented wrongly. -/
structure ClosesBody (lexer : Lexer) (label rest : List Char) (reported : Prop) : Prop where
  closes : ∃ tokens span,
    lexer.bodyScan.tokens = tokens ++ [⟨.heredocEnd, span, .text (.ofChars label)⟩]
  left : lexer.bodyScan.lexer.rest = rest
  reports : (∃ found ∈ lexer.bodyScan.diagnostics, found.error = .heredocIndentation) ↔ reported

/-- Tokens inside a body. -/
def IsInner (kind : TokenKind) : Prop := kind ≠ .endOfSource ∧ kind ≠ .heredocEnd

/-- A step inside the body comes before the rest of it. -/
theorem ClosesBody.of_step
    (inner : ∀ kind value, lexer.step.token = some (kind, value) → IsInner kind)
    (h : lexer.advance.ClosesBody label rest reported) :
    lexer.ClosesBody label rest (.heredocIndentation ∈ lexer.step.errors ∨ reported) := by
  have here : (∃ found ∈ lexer.found, found.error = .heredocIndentation) ↔
      .heredocIndentation ∈ lexer.step.errors := by
    simp [Lexer.found]
  obtain ⟨⟨tokens, span, eq⟩, left, reports⟩ := h
  have both : (∃ found ∈ lexer.found ++ lexer.advance.bodyScan.diagnostics,
      found.error = .heredocIndentation) ↔
        .heredocIndentation ∈ lexer.step.errors ∨ reported := by
    simp only [List.mem_append, or_and_right, exists_or, here, reports]
  rcases token : lexer.step.token with _ | ⟨kind, value⟩
  · have scan : lexer.bodyScan = _ := scanUntil_of_silent token
    exact ⟨⟨tokens, span, by rw [scan]; exact eq⟩, by rw [scan]; exact left,
      by rw [scan]; exact both⟩
  · obtain ⟨ne, ne'⟩ := inner kind value token
    have scan : lexer.bodyScan = _ := scanUntil_of_token token ne (beq_eq_false_iff_ne.2 ne')
    refine ⟨⟨⟨kind, lexer.span, value⟩ :: tokens, span, ?_⟩, by rw [scan]; exact left,
      by rw [scan]; exact both⟩
    rw [scan]
    exact congrArg (_ :: ·) eq

/-- Tokens inside the body that are read without a problem come before the rest of it. -/
theorem ClosesBody.of_reads (reads : lexer.Reads tokens later)
    (inner : ∀ token ∈ tokens, IsInner token.kind) (h : later.ClosesBody label rest reported) :
    lexer.ClosesBody label rest reported := by
  induction reads with
  | done => exact h
  | @token lexer later tokens clean reads ih =>
    obtain ⟨⟨ne, ne'⟩, others⟩ := List.forall_mem_cons.1 inner
    obtain ⟨⟨tokens, span, eq⟩, left, reports⟩ := ih others h
    have scan : lexer.bodyScan = _ := scanUntil_of_next ne (beq_eq_false_iff_ne.2 ne')
    refine ⟨⟨lexer.next.token :: tokens, span, ?_⟩, by rw [scan]; exact left, ?_⟩
    · rw [scan]
      exact congrArg (_ :: ·) eq
    · rw [scan, clean]
      exact reports

/-- The closing label ends the body. -/
theorem closesBody_of_closing (isLabel : IsLabel label)
    (mode : lexer.context.mode = .closingLabel)
    (held : lexer.context.label = some (String.ofList label)) (front : lexer.rest = label ++ rest) :
    lexer.ClosesBody label rest False := by
  obtain ⟨later, reads, -, left⟩ := reads_closingLabel isLabel mode held front
  generalize eq : [_] = tokens at reads
  cases reads with
  | done => cases eq
  | token clean h =>
    obtain ⟨token, rfl⟩ := List.cons.inj eq
    cases h with
    | done =>
    have scan : lexer.bodyScan = _ := scanUntil_of_last (.inr (by rw [← token]; rfl))
    refine ⟨⟨[], _, by rw [scan, ← token]; rfl⟩, by rw [scan]; exact left, ?_⟩
    rw [scan]
    change (∃ found ∈ lexer.next.diagnostics, _) ↔ False
    rw [clean]
    exact iff_of_false nofun id

/-! ## Bodies -/

/-- A lexer in a body of any indentation, with its lines and the closing label in front. The first
line may have begun before. -/
structure InRagged (lexer : Lexer) (label : List Char) (lines : List (List Char))
    (indent rest : List Char) : Prop where
  ragged : Ragged label lexer.lineStart lines
  mode : lexer.context.mode = .heredoc
  held : lexer.context.label = some (String.ofList label)
  blank : ∀ c ∈ indent, isIndent c
  ends : nextIs isLabelPart rest = false
  front : lexer.rest = unlines lines ++ (indent ++ (label ++ rest))

variable {line name indent first front tail : List Char} {more full after : List (List Char)}

theorem InRagged.rest_ne_nil (h : lexer.InRagged label more indent rest) : lexer.rest ≠ [] := by
  rw [h.front]
  exact List.append_ne_nil_of_right_ne_nil _
    (List.append_ne_nil_of_right_ne_nil _ (List.append_ne_nil_of_left_ne_nil
      h.ragged.isLabel.ne_nil _))

/-- Lines without variables are checked at once. -/
theorem InRagged.closes_plain (h : lexer.InRagged label (first :: more) indent rest)
    (plain : ∀ line ∈ first :: more, ∀ c ∈ line, isPlain c) :
    lexer.ClosesBody label rest (Misindented indent lexer.lineStart (first :: more)) := by
  have split : lexer.rest = unlines (first :: more) ++ indent ++ (label ++ rest) := by
    rw [h.front, List.append_assoc]
  have step : lexer.step = closeStep lexer.settings lexer.context false lexer.lineStart
      (unlines (first :: more) ++ indent) := by
    have last := fragment_label h.ragged (carried_of_plain plain) h.blank h.ends
    rw [← h.front] at last
    rw [step_of_label h.mode h.held h.rest_ne_nil last, split, ← List.length_append, List.take_left]
  obtain ⟨length, context⟩ := closeStep_taken lexer.settings lexer.context false lexer.lineStart
    (unlines (first :: more) ++ indent)
  obtain ⟨run, reports⟩ := closeStep_reports_iff lexer.settings lexer.context lexer.lineStart
    (unlines (first :: more) ++ indent)
  rw [← step] at length context run reports
  have inside : lexer.advance.context = lexer.context.enter .closingLabel := context
  have closing : lexer.advance.ClosesBody label rest False :=
    closesBody_of_closing h.ragged.isLabel (by rw [inside]; rfl) (by rw [inside]; exact h.held)
      (rest_advance split length)
  have inner : ∀ kind value, lexer.step.token = some (kind, value) → IsInner kind := by
    intro kind value token
    rw [run kind value token]
    exact ⟨nofun, nofun⟩
  have noBrace : ∀ line ∈ first :: more, '\x7b' ∉ line := fun line mem =>
    not_mem_of_plain (plain line mem) (by decide)
  have all := closing.of_step inner
  rwa [or_false, reports, dedentLast_wrong_iff h.ragged.noFeed h.blank,
    ← misindented_of_plain noBrace] at all

/-- Lines up to a variable are checked one by one, unless there is nothing. -/
theorem InRagged.step_front
    (h : lexer.InRagged label (full ++ (front ++ '\x7b' :: '$' :: tail) :: after) indent rest)
    (plain : ∀ line ∈ full ++ [front], ∀ c ∈ line, isPlain c) (ne : unlines full ++ front ≠ []) :
    lexer.advance.context = lexer.context ∧
      lexer.advance.rest =
        '\x7b' :: '$' :: (unlines (tail :: after) ++ (indent ++ (label ++ rest))) ∧
      (∀ kind value, lexer.step.token = some (kind, value) → IsInner kind) ∧
      (.heredocIndentation ∈ lexer.step.errors ↔
        ∃ line ∈ started lexer.lineStart (full ++ [front ++ '\x7b' :: '$' :: tail]),
          UnderIndented indent line) := by
  have split : lexer.rest = unlines full ++ front ++
      '\x7b' :: '$' :: (unlines (tail :: after) ++ (indent ++ (label ++ rest))) := by
    rw [h.front, unlines_append, List.append_assoc, unlines_cons_append, unlines_cons_append]
    simp
  have found : fragment label lexer.lineStart lexer.rest =
      ((unlines full ++ front).length, .interpolation) := by
    rw [split, List.append_assoc, unlines_cons_append]
    exact fragment_interpolation h.ragged plain _
  have step : lexer.step = fragmentStep lexer.settings lexer.context label lexer.lineStart
      (unlines full ++ front)
      ('\x7b' :: '$' :: (unlines (tail :: after) ++ (indent ++ (label ++ rest)))) := by
    rw [step_of_interpolation h.mode h.held h.rest_ne_nil found
      fun zero => ne (List.length_eq_zero_iff.1 zero), split, List.take_left, List.drop_left]
  have ahead : indentAhead label
      ('\x7b' :: '$' :: (unlines (tail :: after) ++ (indent ++ (label ++ rest)))) = indent := by
    have lines := h.ragged.after.indentAhead h.blank h.ends
    rw [unlines_cons_append] at lines ⊢
    exact lines
  rw [fragmentStep_eq, ahead] at step
  refine ⟨congrArg Step.context step, rest_advance split (congrArg Step.length step), ?_, ?_⟩
  · intro kind value token
    rw [congrArg Step.token step] at token
    obtain ⟨rfl, -⟩ := Prod.mk.inj (Option.some.inj token)
    exact ⟨nofun, nofun⟩
  · rw [congrArg Step.errors step]
    exact indentation_mem_append_iff.trans (dedentEarlier_wrong_iff h.blank plain)

/-- A variable comes before the rest of the body. -/
theorem ClosesBody.of_braced {text : List Char} (isLabel : IsLabel label)
    (held : lexer.context.label = some (String.ofList label))
    (mode : lexer.context.mode = .heredoc) (isName : IsLabel name)
    (front : lexer.rest = '\x7b' :: '$' :: (name ++ '\x7d' :: text))
    (h : (lexer.pastBraced name text).ClosesBody label rest reported) :
    lexer.ClosesBody label rest reported := by
  refine .of_reads (Reads.of_braced isLabel held mode isName front (.done _)) ?_ h
  simp [bracedTokens, IsInner]

/-- Whatever variables are in the lines, the body is read up to its closing label. -/
theorem InRagged.closes {lines : List (List LinePiece)} (cut : Cut lines) (ne : lines ≠ [])
    (writable : ∀ line ∈ lines, ∀ piece ∈ line, piece.IsWritable)
    (h : lexer.InRagged label (lines.map writeLine) indent rest) :
    lexer.ClosesBody label rest (Misindented indent lexer.lineStart (lines.map writeLine)) := by
  induction cut generalizing lexer with
  | text texts =>
    obtain ⟨first, more, rfl⟩ := List.exists_cons_of_ne_nil ne
    exact h.closes_plain (isPlain_of_texts writable texts)
  | @braced full later front back name texts cut ih =>
    simp only [List.forall_mem_append, List.forall_mem_cons] at writable
    obtain ⟨inFull, ⟨inFront, isName, inBack⟩, inLater⟩ := writable
    have plain := isPlain_of_texts
      (List.forall_mem_append.2 ⟨inFull, List.forall_mem_singleton.2 inFront⟩) texts
    rw [List.map_append, List.map_singleton] at plain
    rw [List.map_append, List.map_cons, writeLine_braced] at h ⊢
    have ragged : Ragged label false (writeLine back :: later.map writeLine) := by
      refine @Ragged.after label (writeLine front ++ '\x7b' :: '$' :: (name ++ ['\x7d']))
        (writeLine back) (full.map writeLine) (later.map writeLine) lexer.lineStart ?_
      simpa using h.ragged
    -- what comes after the variable, whether or not there was text before it
    have past {inside : Lexer} (context : inside.context = lexer.context)
        (left : inside.rest = '\x7b' :: '$' :: (unlines ((name ++ '\x7d' :: writeLine back) ::
          later.map writeLine) ++ (indent ++ (label ++ rest)))) :
        inside.ClosesBody label rest
          (Misindented indent false (writeLine back :: later.map writeLine)) := by
      rw [unlines_cons_append, List.append_assoc, List.cons_append, ← unlines_cons_append] at left
      refine .of_braced h.ragged.isLabel (context ▸ h.held) (context ▸ h.mode) isName left ?_
      refine ih (List.cons_ne_nil _ _) (List.forall_mem_cons.2 ⟨inBack, inLater⟩) ?_
      exact ⟨ragged, (congrArg Context.mode context).trans h.mode,
        (congrArg Context.label context).trans h.held, h.blank, h.ends, rfl⟩
    by_cases nil : unlines (full.map writeLine) ++ writeLine front = []
    · obtain ⟨noLines, noFront⟩ := eq_nil_of_unlines_append nil
      rw [noLines, noFront] at h ⊢
      rw [List.nil_append, List.nil_append, misindented_variable (writeLine back)]
      exact past rfl h.front
    · obtain ⟨context, left, inner, reports⟩ := h.step_front plain nil
      have noBrace : ∀ line ∈ full.map writeLine ++ [writeLine front], '\x7b' ∉ line :=
        fun line mem => not_mem_of_plain (plain line mem) (by decide)
      rw [misindented_front noBrace nil (writeLine back), ← reports]
      exact (past context left).of_step inner

/-! ## From the opening to the closing label -/

/-- The step that opens a body holds its label from then on. -/
theorem label_of_opens (opens : lexer.step.token = some (.heredocStart, .text (.ofChars label))) :
    lexer.advance.context.label = some (String.ofList label) := by
  have ne : lexer.rest ≠ [] := fun nil => by
    rw [step_token_of_rest_eq_nil nil] at opens
    cases opens
  cases lexer.step_move ne with
  | token token pos le turn =>
    exact absurd (Step.token_inj opens token).1.symm turn.kind_ne.1
  | opensBody code body ne token pos le same =>
    obtain ⟨-, value⟩ := Step.token_inj opens token
    obtain rfl := Text.str.inj (TokenValue.text.inj value)
    exact congrArg Context.label same
  | reachesLabel body held le front indent token same =>
    rcases token with ⟨none, -⟩ | ⟨value, token, -⟩
    · rw [none] at opens
      cases opens
    · cases (Step.token_inj opens token).1
  | closesBody mode token le length same => cases (Step.token_inj opens token).1
  | leaves free none zero same | looksOn mode none zero same =>
    rw [none] at opens
    cases opens

theorem newline_not_mem_writeLine {line : List LinePiece}
    (writable : ∀ piece ∈ line, piece.IsWritable) : '\n' ∉ writeLine line := by
  intro mem
  obtain ⟨piece, mem, inPiece⟩ := List.mem_flatMap.1 mem
  have own := writable piece mem
  cases piece with
  | text chars => exact not_mem_of_plain own (by decide) inPiece
  | braced name =>
    have inName : '\n' ∈ name := by simpa [write] using inPiece
    exact newline_not_mem_label own inName

/-- **When a wrong indentation is reported.** Let a step open a heredoc, and after it let there be
lines of text and of variables in braces, of which none closes the heredoc, and then some blanks and
the label. The body is read up to that label. On the way a wrong indentation is reported just if a
line with content that is checked does not begin with those blanks, or else, if there are blanks,
if the indentations of the lines after the last variable do not have a least one all the way.

All lines are checked but one: the first, if it begins with a variable or if the opening does not
end in a line feed. -/
theorem heredoc_reports {lines : List (List LinePiece)}
    (opens : lexer.step.token = some (.heredocStart, .text (.ofChars label)))
    (mode : lexer.advance.context.mode = .heredoc) (isLabel : IsLabel label) (ne : lines ≠ [])
    (writable : ∀ line ∈ lines, ∀ piece ∈ line, piece.IsWritable)
    (keeps : ∀ line ∈ started lexer.advance.lineStart (lines.map writeLine), KeepsOpen label line)
    (blank : ∀ c ∈ indent, isIndent c) (ends : nextIs isLabelPart rest = false)
    (front : lexer.advance.rest = unlines (lines.map writeLine) ++ (indent ++ (label ++ rest))) :
    lexer.ClosesBody label rest
      (Misindented indent lexer.advance.lineStart (lines.map writeLine)) := by
  have noFeeds : ∀ line ∈ lines.map writeLine, '\n' ∉ line :=
    List.forall_mem_map.2 fun line mem => newline_not_mem_writeLine (writable line mem)
  have inside : lexer.advance.InRagged label (lines.map writeLine) indent rest :=
    ⟨⟨isLabel, noFeeds, keeps⟩, mode, label_of_opens opens, blank, ends, front⟩
  have inner : ∀ kind value, lexer.step.token = some (kind, value) → IsInner kind := by
    intro kind value token
    rw [← (Step.token_inj opens token).1]
    exact ⟨nofun, nofun⟩
  -- the opening itself finds nothing of the kind
  have clean : .heredocIndentation ∉ lexer.step.errors := by
    intro mem
    obtain ⟨kind, value, token, run⟩ := lexer.step_reports.found _ mem
    obtain ⟨rfl, -⟩ := Step.token_inj opens token
    cases run
  have all := (inside.closes (.of_lines lines) ne writable).of_step inner
  rwa [or_iff_right clean] at all

/-- Text before a variable, a line with one blank, and a variable at the start of the third line. -/
def shiftedLines : List (List LinePiece) :=
  [[.text "  a".toList, .braced "v".toList], [.text " b".toList],
    [.braced "w".toList, .text "c".toList]]

/-- Two lines that are indented too little for their label. -/
theorem heredoc_reports_shiftedLines :
    let lexer := start {} ("<<<E\n".toList ++ (unlines (shiftedLines.map writeLine) ++
      ("  ".toList ++ ("E".toList ++ ";".toList)))) 0 { mode := .code }
    lexer.step.token = some (.heredocStart, .text (.ofChars "E".toList)) ∧
      lexer.advance.context.mode = .heredoc ∧ IsLabel "E".toList ∧ shiftedLines ≠ [] ∧
      (∀ line ∈ shiftedLines, ∀ piece ∈ line, piece.IsWritable) ∧
      (∀ line ∈ started lexer.advance.lineStart (shiftedLines.map writeLine),
        KeepsOpen "E".toList line) ∧
      (∀ c ∈ "  ".toList, isIndent c) ∧ nextIs isLabelPart ";".toList = false ∧
      lexer.advance.rest = unlines (shiftedLines.map writeLine) ++
        ("  ".toList ++ ("E".toList ++ ";".toList)) ∧
      lexer.ClosesBody "E".toList ";".toList
        (Misindented "  ".toList lexer.advance.lineStart (shiftedLines.map writeLine)) ∧
      ∃ found ∈ lexer.bodyScan.diagnostics, found.error = .heredocIndentation := by
  intro lexer
  have opens : lexer.step.token = some (.heredocStart, .text (.ofChars "E".toList)) := rfl
  have writable : ∀ line ∈ shiftedLines, ∀ piece ∈ line, piece.IsWritable := by decide
  have keeps : ∀ line ∈ started lexer.advance.lineStart (shiftedLines.map writeLine),
      KeepsOpen "E".toList line := by decide
  have blank : ∀ c ∈ "  ".toList, isIndent c := List.all_eq_true.1 rfl
  have closes := @heredoc_reports lexer "E".toList ";".toList "  ".toList shiftedLines opens rfl
    (by decide) (List.cons_ne_nil _ _) writable keeps blank rfl rfl
  have checked :
      " b".toList ∈ checkedLines lexer.advance.lineStart (shiftedLines.map writeLine) := by
    decide
  refine ⟨opens, rfl, by decide, List.cons_ne_nil _ _, writable, keeps, blank, rfl, rfl, closes, ?_⟩
  exact closes.reports.2 (.inl ⟨" b".toList, checked, by decide⟩)

/-- The only line of a body begins with a variable, and without the indentation of the label;
nothing is reported. -/
theorem heredoc_passes_first_variable :
    let lexer := start {} "<<<E\n\x7b$v\x7d\n  E;".toList 0 { mode := .code }
    lexer.step.token = some (.heredocStart, .text (.ofChars "E".toList)) ∧
      lexer.advance.rest = unlines ["\x7b$v\x7d".toList] ++ "  E;".toList ∧
      UnderIndented "  ".toList "\x7b$v\x7d".toList ∧
      lexer.bodyScan.lexer.rest = ";".toList ∧
      ¬∃ found ∈ lexer.bodyScan.diagnostics, found.error = .heredocIndentation := by
  intro lexer
  have inside : lexer.advance.InRagged "E".toList ([[.braced "v".toList]].map writeLine)
      "  ".toList ";".toList :=
    ⟨⟨by decide, by decide, by decide⟩, rfl, rfl, List.all_eq_true.1 rfl, rfl, rfl⟩
  have closes := inside.closes (.of_lines _) (List.cons_ne_nil _ _) (by decide)
  have opening : lexer.ClosesBody "E".toList ";".toList _ := closes.of_step (by
    rintro kind value ⟨⟩
    exact ⟨nofun, nofun⟩)
  refine ⟨rfl, rfl, by decide, opening.left, fun found => ?_⟩
  rcases opening.reports.1 found with here | ⟨line, mem, -⟩ | ⟨-, notLeast⟩
  · cases here
  · cases mem
  · exact notLeast leastSoFar_nil

end Lexer

end PhpFrontEnd
