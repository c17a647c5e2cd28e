import Mathlib.Data.List.DropRight
import PhpFrontEnd.Proofs.HeredocText
import PhpFrontEnd.Proofs.SharedIndentation

/-!
# What is checked of a body

The lines of a body are asked whether they begin with the indentation of the closing label. Which
lines are asked in a fragment can be told by the lines of the body, each as a whole, although a
fragment may end in the middle of one: up to a variable the fragment asks the lines that it starts
one by one (`dedentEarlier_wrong_iff`), and after the last variable all at once, where the
indentations also have to have a least one all the way (`dedentLast_wrong_iff`).

Put together these are all lines but a first one that begins with a variable, which no fragment
starts (`Misindented`). A body is taken apart at its variables in the same way
(`misindented_variable`, `misindented_front`).
-/

namespace PhpFrontEnd.Heredoc

open LinePiece HeredocBody

variable {line front back indent : List Char} {lines full later : List (List Char)}
  {lineStart : Bool}

/-! ## What the checks find -/

/-- A line with content that does not begin with the indentation. -/
def UnderIndented (indent line : List Char) : Prop :=
  (∃ c ∈ line, isContent c) ∧ ¬indent <+: line

instance (indent line : List Char) : Decidable (UnderIndented indent line) :=
  decidable_of_iff (line.any isContent ∧ ¬indent <+: line) (by
    rw [UnderIndented, List.any_eq_true])

theorem not_underIndented_iff :
    ¬UnderIndented indent line ↔ ((∃ c ∈ line, isContent c) → indent <+: line) := by
  rw [UnderIndented, not_and, not_not]

theorem dedentLast_wrong_eq_false_iff {source : List Char} :
    (dedentLast source lineStart).wrong = false ↔
      ∃ width, resolve source lineStart = .ok width := by
  rw [dedentLast]
  rcases resolve source lineStart with mismatch | width
  · simp
  · simp

/-- The last fragment of a body is wrong if a line that it starts is indented too little, or if the
indentations of these lines do not have a least one all the way. -/
theorem dedentLast_wrong_iff (noFeeds : ∀ line ∈ lines, '\n' ∉ line)
    (blank : ∀ c ∈ indent, isIndent c) :
    (dedentLast (unlines lines ++ indent) lineStart).wrong ↔
      (∃ line ∈ started lineStart lines, UnderIndented indent line) ∨
        indent ≠ [] ∧ ¬LeastSoFar ((started lineStart lines).filterMap indentOf?) := by
  have cut := Lines.of_unlines noFeeds (newline_not_mem_indent blank)
  have ok {width : Nat} := @resolve_eq_ok_iff (unlines lines ++ indent) lineStart
    (by rw [cut]; exact blank) width
  rw [checkedIndents, startedLines, cut] at ok
  have right : (dedentLast (unlines lines ++ indent) lineStart).wrong = false ↔
      (∀ line ∈ started lineStart lines, ¬UnderIndented indent line) ∧
        (indent = [] ∨ LeastSoFar ((started lineStart lines).filterMap indentOf?)) := by
    simp only [dedentLast_wrong_eq_false_iff, ok, not_underIndented_iff, exists_eq_left]
    rfl
  rw [← not_iff_not, Bool.not_eq_true, right]
  simp only [not_or, not_and, not_not, not_exists]
  refine and_congr_right fun _ => ?_
  exact or_iff_not_imp_left

/-- The text before a variable has to begin with the indentation, also if it is blank. -/
theorem owes_front (noFeed : '\n' ∉ front) (noReturn : '\r' ∉ front) :
    owes indent front ↔ indent <+: front := by
  unfold owes
  rcases tail : front.dropWhile isIndent with _ | ⟨c, more⟩
  · exact List.isPrefixOf_iff_prefix
  · have mem : c ∈ front :=
      (List.dropWhile_suffix isIndent).subset (by rw [tail]; exact List.mem_cons_self)
    have notFeed : c ≠ '\n' := fun feed => noFeed (feed ▸ mem)
    have notReturn : c ≠ '\r' := fun carriage => noReturn (carriage ▸ mem)
    simp only [beq_eq_false_iff_ne.2 notFeed, beq_eq_false_iff_ne.2 notReturn, Bool.false_or,
      List.isPrefixOf_iff_prefix]

/-- The line that a variable is in has content, and it is the text before the variable that has to
begin with the indentation. -/
theorem owes_front_iff (blank : ∀ c ∈ indent, isIndent c) (plain : ∀ c ∈ front, isPlain c) :
    owes indent front ↔ ¬UnderIndented indent (front ++ '\x7b' :: back) := by
  have noFeed : '\n' ∉ front := not_mem_of_plain plain (by decide)
  have noReturn : '\r' ∉ front := not_mem_of_plain plain (by decide)
  have noBrace : '\x7b' ∉ indent := fun mem => Bool.false_ne_true (blank _ mem)
  have content : ∃ c ∈ front ++ '\x7b' :: back, isContent c := ⟨'\x7b', by simp, rfl⟩
  rw [owes_front noFeed noReturn, not_underIndented_iff, prefix_append_cons_iff noBrace,
    forall_prop_of_true content]

theorem owes_line_iff (blank : ∀ c ∈ indent, isIndent c) (plain : ∀ c ∈ line, isPlain c)
    (text : List Char) : owes indent (line ++ '\n' :: text) ↔ ¬UnderIndented indent line := by
  have noFeed : '\n' ∉ line := not_mem_of_plain plain (by decide)
  have noReturn : '\r' ∉ line := not_mem_of_plain plain (by decide)
  rw [not_underIndented_iff]
  exact owes_line blank noFeed fun back suffix => absurd (suffix.subset List.mem_cons_self) noReturn

/-- Up to a variable every line is asked for the indentation. -/
theorem owes_unlines (blank : ∀ c ∈ indent, isIndent c)
    (plain : ∀ own ∈ full ++ [front], ∀ c ∈ own, isPlain c) :
    (∀ tail ∈ (unlines full ++ front) :: lineTails (unlines full ++ front), owes indent tail) ↔
      ∀ line ∈ full ++ [front ++ '\x7b' :: back], ¬UnderIndented indent line := by
  induction full with
  | nil =>
    have own := plain front List.mem_cons_self
    have noFeed : '\n' ∉ front := not_mem_of_plain own (by decide)
    change (∀ tail ∈ front :: lineTails front, _) ↔ ∀ line ∈ [_], _
    rw [lineTails_of_not_mem noFeed, List.forall_mem_singleton, List.forall_mem_singleton]
    exact owes_front_iff blank own
  | cons line full ih =>
    obtain ⟨own, others⟩ := List.forall_mem_cons.1 plain
    have noFeed : '\n' ∉ line := not_mem_of_plain own (by decide)
    rw [unlines_cons_append, lineTails_line noFeed, List.forall_mem_cons, ih others,
      owes_line_iff blank own, List.cons_append, List.forall_mem_cons]

/-- A fragment up to a variable is wrong if a line that it starts is indented too little; the line
with the variable counts as a whole. -/
theorem dedentEarlier_wrong_iff (blank : ∀ c ∈ indent, isIndent c)
    (plain : ∀ own ∈ full ++ [front], ∀ c ∈ own, isPlain c) :
    (dedentEarlier (unlines full ++ front) indent lineStart).wrong ↔
      ∃ line ∈ started lineStart (full ++ [front ++ '\x7b' :: back]),
        UnderIndented indent line := by
  have fits : isIndentedBy (unlines full ++ front) lineStart indent ↔
      ∀ line ∈ started lineStart (full ++ [front ++ '\x7b' :: back]),
        ¬UnderIndented indent line := by
    have checked : isIndentedBy (unlines full ++ front) lineStart indent ↔
        ∀ tail ∈ (if lineStart then [unlines full ++ front] else []) ++
          lineTails (unlines full ++ front), owes indent tail := List.all_eq_true
    rw [checked]
    cases lineStart with
    | true => exact owes_unlines blank plain
    | false =>
      -- what is checked begins after the first line feed
      rw [if_neg Bool.false_ne_true, List.nil_append]
      rcases full with _ | ⟨line, full⟩
      · have own := plain front List.mem_cons_self
        have noFeed : '\n' ∉ front := not_mem_of_plain own (by decide)
        change (∀ tail ∈ lineTails front, _) ↔ ∀ line ∈ [], _
        rw [lineTails_of_not_mem noFeed]
        exact iff_of_true nofun nofun
      · obtain ⟨own, others⟩ := List.forall_mem_cons.1 plain
        have noFeed : '\n' ∉ line := not_mem_of_plain own (by decide)
        rw [unlines_cons_append, lineTails_line noFeed]
        exact owes_unlines blank others
  rw [dedentEarlier, Bool.not_eq_true', ← Bool.not_eq_true, fits]
  simp only [not_forall, not_not, exists_prop]

/-! ## The lines that are checked -/

/-- The lines that are asked for their indentation: those that a body starts, but not a first one
that begins with a variable. -/
def checkedLines (lineStart : Bool) : List (List Char) → List (List Char)
  | [] => []
  | first :: more => if lineStart && !nextIs (· == '\x7b') first then first :: more else more

/-- The lines after the last one with a variable. -/
def lastLines (lineStart : Bool) (lines : List (List Char)) : List (List Char) :=
  (started lineStart lines).rtakeWhile fun line => !line.contains '\x7b'

/-- A body that is indented wrongly: a line that is asked for its indentation has too little, or the
label has some and the indentations of the lines after the last variable do not have a least one
all the way. -/
def Misindented (indent : List Char) (lineStart : Bool) (lines : List (List Char)) : Prop :=
  (∃ line ∈ checkedLines lineStart lines, UnderIndented indent line) ∨
    indent ≠ [] ∧ ¬LeastSoFar ((lastLines lineStart lines).filterMap indentOf?)

theorem not_nextIs_brace (noBrace : '\x7b' ∉ line) : nextIs (· == '\x7b') line = false := by
  rcases line with _ | ⟨c, line⟩
  · rfl
  · refine beq_eq_false_iff_ne.2 ?_
    rintro rfl
    exact noBrace List.mem_cons_self

/-- Without variables all lines are checked, and at once. -/
theorem misindented_of_plain (noBrace : ∀ line ∈ lines, '\x7b' ∉ line) :
    Misindented indent lineStart lines ↔
      (∃ line ∈ started lineStart lines, UnderIndented indent line) ∨
        indent ≠ [] ∧ ¬LeastSoFar ((started lineStart lines).filterMap indentOf?) := by
  have checked : checkedLines lineStart lines = started lineStart lines := by
    rcases lines with _ | ⟨first, more⟩
    · cases lineStart <;> rfl
    · rw [checkedLines, not_nextIs_brace (noBrace first List.mem_cons_self)]
      cases lineStart <;> rfl
  have last : lastLines lineStart lines = started lineStart lines := by
    refine List.rtakeWhile_eq_self_iff.2 fun line mem => ?_
    simpa using noBrace line (mem_of_mem_started mem)
  rw [Misindented, checked, last]

theorem rtakeWhile_append_cons_of_neg {α : Type} {p : α → Bool} {a : α} (h : ¬p a)
    (front back : List α) : (front ++ a :: back).rtakeWhile p = back.rtakeWhile p := by
  induction back using List.reverseRecOn with
  | nil => exact List.rtakeWhile_concat_neg p front a h
  | append_singleton back b ih =>
    rw [← List.cons_append, ← List.append_assoc, List.rtakeWhile_concat, List.rtakeWhile_concat, ih]

/-- The lines after a line with a variable. -/
theorem lastLines_variable (brace : '\x7b' ∈ line) (lineStart : Bool) (full : List (List Char))
    (other : List Char) (later : List (List Char)) :
    lastLines lineStart (full ++ line :: later) = lastLines false (other :: later) := by
  have drops (front : List (List Char)) :
      (front ++ line :: later).rtakeWhile (fun line => !line.contains '\x7b') =
        later.rtakeWhile fun line => !line.contains '\x7b' :=
    rtakeWhile_append_cons_of_neg (by simpa using brace) front later
  cases lineStart with
  | true => exact drops full
  | false =>
    rcases full with _ | ⟨first, full⟩
    · rfl
    · exact drops full

/-- A line that begins with a variable is not checked if it comes first. -/
theorem misindented_variable (other : List Char) :
    Misindented indent lineStart (('\x7b' :: back) :: later) ↔
      Misindented indent false (other :: later) := by
  have checked : checkedLines lineStart (('\x7b' :: back) :: later) = later := by
    cases lineStart <;> rfl
  have last := @lastLines_variable ('\x7b' :: back) List.mem_cons_self lineStart [] other later
  rw [List.nil_append] at last
  rw [Misindented, checked, last]
  rfl

/-- What is checked up to a variable, and what is checked after it. -/
theorem misindented_front {front : List Char} (noBrace : ∀ line ∈ full ++ [front], '\x7b' ∉ line)
    (ne : unlines full ++ front ≠ []) (other : List Char) :
    Misindented indent lineStart (full ++ (front ++ '\x7b' :: back) :: later) ↔
      (∃ line ∈ started lineStart (full ++ [front ++ '\x7b' :: back]), UnderIndented indent line) ∨
        Misindented indent false (other :: later) := by
  have checked : checkedLines lineStart (full ++ (front ++ '\x7b' :: back) :: later) =
      started lineStart (full ++ [front ++ '\x7b' :: back]) ++ later := by
    obtain ⟨first, more, eq⟩ := List.exists_cons_of_ne_nil
      (show full ++ [front ++ '\x7b' :: back] ≠ [] by simp)
    have noFirst : nextIs (· == '\x7b') first = false := by
      rcases full with _ | ⟨line, full⟩
      · obtain ⟨rfl, rfl⟩ := List.cons.inj eq
        obtain ⟨c, front, rfl⟩ := List.exists_cons_of_ne_nil (show front ≠ [] from ne)
        have own := not_nextIs_brace (noBrace (c :: front) List.mem_cons_self)
        exact own
      · obtain ⟨rfl, -⟩ := List.cons.inj eq
        exact not_nextIs_brace (noBrace _ List.mem_cons_self)
    rw [← List.singleton_append, ← List.append_assoc, eq, List.cons_append, checkedLines, noFirst]
    cases lineStart <;> rfl
  rw [Misindented, checked, lastLines_variable (by simp) lineStart full other later]
  simp only [List.mem_append, or_and_right, exists_or, or_assoc]
  rfl

end PhpFrontEnd.Heredoc
