import Mathlib.Data.List.Forall2
import PhpFrontEnd.Proofs.SharedIndentation

/-!
# Lines without their indentation

When the lines of a last fragment have passed the check, they lose the indentation of the closing
label, and nothing else. The loop that removes it does not know that indentation: it counts blanks,
and starts to count again after every line feed. So the argument goes line by line. A line with
content begins with the whole indentation, because that was checked, and the count is used up by
just these blanks (`dedentFrom_indent`); a line without content has fewer of them or as many, and
the count ends with the line (`exists_blanks`).

The body of a fragment has the lines of the fragment up to the last line feed, where a carriage
return in front of that is dropped too (`splitOn_finalBody`). What was checked of the lines of the
fragment holds of those of the body, for the indentation has no carriage return.
-/

namespace PhpFrontEnd.Heredoc

variable {text line indent : List Char} {before : List (List Char)} {lineStart : Bool}
  {width : Nat}

/-! ## One line -/

/-- What a line loses that starts in a fragment: the indentation if it has content, and otherwise
the blanks that it begins with, but no more of them than the indentation has. -/
inductive Loses (indent : List Char) : List Char → List Char → Prop where
  | indentation {rest : List Char} (content : ∃ c ∈ indent ++ rest, isContent c) :
      Loses indent (indent ++ rest) rest
  | blanks {blanks rest : List Char} (none : ∀ c ∈ blanks ++ rest, isContent c = false)
      (blank : ∀ c ∈ blanks, isIndent c) (most : blanks.length ≤ indent.length)
      (all : blanks.length = indent.length ∨ nextIs isIndent rest = false) :
      Loses indent (blanks ++ rest) rest

/-- The blanks of an indentation use up a count as long as it is. -/
theorem dedentFrom_indent (blank : ∀ c ∈ indent, isIndent c) (width : Nat) (rest : List Char) :
    dedentFrom width indent.length (indent ++ rest) = dedentFrom width 0 rest := by
  induction indent with
  | nil => rfl
  | cons c indent ih =>
    obtain ⟨own, others⟩ := List.forall_mem_cons.1 blank
    rw [List.cons_append, dedentFrom, if_pos ⟨Nat.succ_pos _, own⟩]
    exact ih others

/-- A line loses blanks until the count is used up or it has no more of them in front. -/
theorem exists_blanks (noFeed : '\n' ∉ line) (width left : Nat) :
    ∃ blanks, line = blanks ++ dedentFrom width left line ∧ (∀ c ∈ blanks, isIndent c) ∧
      blanks.length ≤ left ∧
      (blanks.length = left ∨ nextIs isIndent (dedentFrom width left line) = false) := by
  induction line generalizing left with
  | nil => exact ⟨[], rfl, nofun, Nat.zero_le _, .inr rfl⟩
  | cons c line ih =>
    simp only [List.mem_cons, not_or] at noFeed
    rw [dedentFrom]
    split
    · rename_i counts
      obtain ⟨blanks, eq, blank, most, all⟩ := ih noFeed.2 (left - 1)
      refine ⟨c :: blanks, ?_, List.forall_mem_cons.2 ⟨counts.2, blank⟩, ?_, ?_⟩
      · rw [List.cons_append, ← eq]
      · rw [List.length_cons]
        omega
      · rw [List.length_cons]
        exact all.imp_left fun used => by omega
    · rename_i stops
      rw [if_neg (Ne.symm noFeed.1), dedentFrom_zero noFeed.2]
      refine ⟨[], rfl, nofun, Nat.zero_le _, ?_⟩
      rcases Nat.eq_zero_or_pos left with rfl | counts
      · exact .inl rfl
      · right
        by_contra blank
        exact stops ⟨counts, by simpa [nextIs] using blank⟩

/-- A line loses what it should if it begins with the indentation in case it has content. -/
theorem loses_dedentFrom (blank : ∀ c ∈ indent, isIndent c) (noFeed : '\n' ∉ line)
    (checked : (∃ c ∈ line, isContent c) → indent <+: line) (width : Nat) :
    Loses indent line (dedentFrom width indent.length line) := by
  by_cases content : ∃ c ∈ line, isContent c
  · obtain ⟨rest, rfl⟩ := checked content
    rw [List.mem_append, not_or] at noFeed
    rw [dedentFrom_indent blank, dedentFrom_zero noFeed.2]
    exact .indentation content
  · obtain ⟨blanks, eq, isBlank, most, all⟩ := exists_blanks noFeed width indent.length
    have none : ∀ c ∈ line, isContent c = false := by
      intro c mem
      by_contra own
      exact content ⟨c, mem, by simpa using own⟩
    have loses : Loses indent (blanks ++ dedentFrom width indent.length line)
        (dedentFrom width indent.length line) := by
      refine .blanks ?_ isBlank most all
      rwa [← eq]
    rwa [← eq] at loses

/-! ## The lines of a text -/

theorem splitOn_line (noFeed : '\n' ∉ line) (rest : List Char) :
    (line ++ '\n' :: rest).splitOn '\n' = line :: rest.splitOn '\n' := by
  rw [List.splitOn_append_cons_self, List.splitOn_eq_singleton noFeed]
  rfl

theorem splitOn_eq (text : List Char) :
    text.splitOn '\n' = (Lines.of text).complete ++ [(Lines.of text).last] := by
  induction text using line_induction with
  | last line noFeed =>
    rw [List.splitOn_eq_singleton noFeed, Lines.of_eq noFeed]
    rfl
  | line line rest noFeed ih =>
    rw [splitOn_line noFeed, Lines.of_line noFeed, ih]
    rfl

/-- Nothing that a line loses or keeps is a line feed. -/
theorem newline_not_mem_dedentFrom (noFeed : '\n' ∉ line) (width left : Nat) :
    '\n' ∉ dedentFrom width left line := by
  obtain ⟨blanks, eq, -⟩ := exists_blanks noFeed width left
  intro mem
  apply noFeed
  rw [eq]
  exact List.mem_append_right _ mem

theorem splitOn_dedentFrom_line (noFeed : '\n' ∉ line) (width left : Nat) (rest : List Char) :
    (dedentFrom width left (line ++ '\n' :: rest)).splitOn '\n' =
      dedentFrom width left line :: (dedentFrom width width rest).splitOn '\n' := by
  rw [dedentFrom_append rest noFeed]
  exact splitOn_line (newline_not_mem_dedentFrom noFeed width left) _

theorem splitOn_dedentFrom_last (noFeed : '\n' ∉ line) (width left : Nat) :
    (dedentFrom width left line).splitOn '\n' = [dedentFrom width left line] :=
  List.splitOn_eq_singleton (newline_not_mem_dedentFrom noFeed width left)

/-- Each line of a text loses what it should if the count starts with the first. -/
theorem forall₂_loses (blank : ∀ c ∈ indent, isIndent c)
    (checked : ∀ line ∈ text.splitOn '\n', (∃ c ∈ line, isContent c) → indent <+: line) :
    List.Forall₂ (Loses indent) (text.splitOn '\n')
      ((dedentFrom indent.length indent.length text).splitOn '\n') := by
  induction text using line_induction with
  | last line noFeed =>
    rw [List.splitOn_eq_singleton noFeed] at checked ⊢
    rw [splitOn_dedentFrom_last noFeed]
    have own := checked line List.mem_cons_self
    exact .cons (loses_dedentFrom blank noFeed own _) .nil
  | line line rest noFeed ih =>
    rw [splitOn_line noFeed] at checked ⊢
    rw [splitOn_dedentFrom_line noFeed]
    obtain ⟨own, others⟩ := List.forall_mem_cons.1 checked
    exact .cons (loses_dedentFrom blank noFeed own _) (ih others)

/-- What becomes of the lines of a fragment. The first one is left alone if it was started by an
earlier fragment. -/
structure Dedents (indent : List Char) (lineStart : Bool) (lines dedented : List (List Char)) :
    Prop where
  length_eq : dedented.length = lines.length
  first : lineStart = false → dedented.head? = lines.head?
  started : List.Forall₂ (Loses indent) (started lineStart lines) (started lineStart dedented)

/-- The lines of a text become what they should if those that it starts were checked. -/
theorem dedents_of_checked (blank : ∀ c ∈ indent, isIndent c)
    (checked : ∀ line ∈ started lineStart (text.splitOn '\n'),
      (∃ c ∈ line, isContent c) → indent <+: line) :
    Dedents indent lineStart (text.splitOn '\n')
      ((dedent text lineStart indent.length).splitOn '\n') := by
  cases lineStart with
  | true =>
    have all := forall₂_loses blank checked
    exact ⟨all.length_eq.symm, nofun, all⟩
  | false =>
    change Dedents indent false _ ((dedentFrom indent.length 0 text).splitOn '\n')
    cases text using line_induction with
    | last line noFeed =>
      rw [splitOn_dedentFrom_last noFeed, dedentFrom_zero noFeed,
        List.splitOn_eq_singleton noFeed]
      exact ⟨rfl, fun _ => rfl, .nil⟩
    | line line rest noFeed _ =>
      rw [splitOn_line noFeed] at checked ⊢
      rw [splitOn_dedentFrom_line noFeed, dedentFrom_zero noFeed]
      have later := forall₂_loses blank checked
      exact ⟨congrArg Nat.succ later.length_eq.symm, fun _ => rfl, later⟩

/-! ## The body of a last fragment -/

/-- A text without the carriage return at its end. -/
def withoutReturn (text : List Char) : List Char :=
  if text.getLast? = some '\r' then text.dropLast else text

theorem withoutReturn_subset (text : List Char) : withoutReturn text ⊆ text := by
  unfold withoutReturn
  split
  · exact List.dropLast_subset text
  · exact List.Subset.refl text

/-- Only the last line of a text can lose a carriage return. -/
theorem withoutReturn_line (line rest : List Char) :
    withoutReturn (line ++ '\n' :: rest) = line ++ '\n' :: withoutReturn rest := by
  rcases List.eq_nil_or_concat' rest with rfl | ⟨front, c, rfl⟩
  · simp [withoutReturn]
  · have split : line ++ '\n' :: (front ++ [c]) = (line ++ '\n' :: front) ++ [c] := by simp
    unfold withoutReturn
    rw [split, List.getLast?_concat, List.getLast?_concat, List.dropLast_concat,
      List.dropLast_concat]
    by_cases carriage : some c = some '\r' <;> simp [carriage]

/-- An indentation has no carriage return. -/
theorem prefix_withoutReturn (blank : ∀ c ∈ indent, isIndent c) (h : indent <+: line) :
    indent <+: withoutReturn line := by
  unfold withoutReturn
  split
  · rename_i carriage
    obtain ⟨front, rfl⟩ := List.getLast?_eq_some_iff.1 carriage
    have lacks : '\r' ∉ indent := fun mem => Bool.false_ne_true (blank _ mem)
    rw [List.dropLast_concat]
    exact (prefix_append_cons_iff lacks).1 h
  · exact h

/-- The lines of a body are those of the fragment, without the last one and without the carriage
return before that. -/
theorem splitOn_finalBody (noFeeds : ∀ own ∈ before ++ [line], '\n' ∉ own)
    (complete : (Lines.of text).complete = before ++ [line]) :
    (finalBody text).splitOn '\n' = before ++ [withoutReturn line] := by
  have body : finalBody text = withoutReturn (List.intercalate ['\n'] (before ++ [line])) := by
    rw [← complete]
    rfl
  rw [body]
  clear body complete
  induction before with
  | nil =>
    have own := noFeeds line List.mem_cons_self
    rw [List.nil_append, List.intercalate_singleton]
    exact List.splitOn_eq_singleton fun mem => own (withoutReturn_subset line mem)
  | cons first before ih =>
    obtain ⟨own, others⟩ := List.forall_mem_cons.1 noFeeds
    have joins : List.intercalate ['\n'] (first :: (before ++ [line])) =
        first ++ '\n' :: List.intercalate ['\n'] (before ++ [line]) := by
      obtain ⟨next, later, eq⟩ := List.exists_cons_of_ne_nil (show before ++ [line] ≠ [] by simp)
      rw [eq, List.intercalate_cons_cons]
      simp
    rw [List.cons_append, joins, withoutReturn_line, splitOn_line own, ih others]
    rfl

/-- What was checked of the lines that a fragment starts holds of the lines that its body starts. -/
theorem checked_finalBody (blank : ∀ c ∈ indent, isIndent c)
    (checked : ∀ line ∈ startedLines text lineStart, (∃ c ∈ line, isContent c) →
      indent <+: line) :
    ∀ line ∈ started lineStart ((finalBody text).splitOn '\n'),
      (∃ c ∈ line, isContent c) → indent <+: line := by
  have noFeeds := Lines.newline_not_mem text
  change ∀ line ∈ started lineStart (Lines.of text).complete, _ at checked
  rcases List.eq_nil_or_concat' (Lines.of text).complete with nil | ⟨before, last, complete⟩
  · -- no line feed, no body
    have body : finalBody text = [] := by simp [finalBody, nil, List.intercalate]
    rw [body, List.splitOn_nil]
    intro line mem content
    obtain rfl := List.mem_singleton.1 (mem_of_mem_started mem)
    obtain ⟨c, inLine, -⟩ := content
    cases inLine
  · rw [complete] at checked noFeeds
    rw [splitOn_finalBody noFeeds complete]
    have shorter (own : (∃ c ∈ last, isContent c) → indent <+: last) :
        (∃ c ∈ withoutReturn last, isContent c) → indent <+: withoutReturn last := by
      rintro ⟨c, mem, content⟩
      exact prefix_withoutReturn blank
        (own ⟨c, withoutReturn_subset last mem, content⟩)
    have all {more : List (List Char)}
        (checked : ∀ line ∈ more ++ [last], (∃ c ∈ line, isContent c) → indent <+: line) :
        ∀ line ∈ more ++ [withoutReturn last],
          (∃ c ∈ line, isContent c) → indent <+: line := by
      rw [List.forall_mem_append, List.forall_mem_singleton] at checked ⊢
      exact ⟨checked.1, shorter checked.2⟩
    cases lineStart with
    | true => exact all checked
    | false =>
      rcases before with _ | ⟨first, more⟩
      · intro line mem
        cases mem
      · exact all checked

/-- **Dedenting removes the indentation of the closing label.** If the check of a last fragment
gives a width, this is the width of its last line, and the body of the fragment keeps all its lines:
those with content that start here lose just that indentation, those without content as many of the
blanks in front of them as there are, up to that width, and the rest of a line that started earlier
loses nothing. -/
theorem dedents_finalBody (cut : text.splitOn '\n' = before ++ [indent])
    (blank : ∀ c ∈ indent, isIndent c) (ok : resolve text lineStart = .ok width) :
    width = indent.length ∧ Dedents indent lineStart ((finalBody text).splitOn '\n')
      ((dedent (finalBody text) lineStart width).splitOn '\n') := by
  rw [splitOn_eq] at cut
  obtain ⟨-, last⟩ := List.append_inj' cut rfl
  obtain rfl := List.cons.inj last |>.1
  obtain ⟨rfl, checked, -⟩ := (resolve_eq_ok_iff blank).1 ok
  exact ⟨rfl, dedents_of_checked blank (checked_finalBody blank checked)⟩

/-- The rest of a line, lines that are indented further than the label, one of them by a tab, and
lines with blanks only. -/
theorem dedents_finalBody_ragged :
    let text := " a\n  \tb\r\n \n    \r\n  \tc\r\n  ".toList
    text.splitOn '\n' = [" a".toList, "  \tb\r".toList, " ".toList, "    \r".toList,
      "  \tc\r".toList] ++ ["  ".toList] ∧
    (∀ c ∈ "  ".toList, isIndent c) ∧ resolve text false = .ok 2 ∧
    Dedents "  ".toList false ((finalBody text).splitOn '\n')
      ((dedent (finalBody text) false 2).splitOn '\n') ∧
    dedent (finalBody text) false 2 = " a\n\tb\r\n\n  \r\n\tc".toList := by
  intro text
  have cut : text.splitOn '\n' = [" a".toList, "  \tb\r".toList, " ".toList, "    \r".toList,
      "  \tc\r".toList] ++ ["  ".toList] := by decide
  have blank : ∀ c ∈ "  ".toList, isIndent c := List.all_eq_true.1 rfl
  have ok : resolve text false = .ok 2 := rfl
  exact ⟨cut, blank, ok, (dedents_finalBody cut blank ok).2, rfl⟩

end PhpFrontEnd.Heredoc
