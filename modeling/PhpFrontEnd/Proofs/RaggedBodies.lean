import PhpFrontEnd.Proofs.LineStart

/-!
# Bodies of any indentation

A body is made of lines, and then come the blanks and the label that close it. Here the lines are as
they are written, with a line feed after each (`Heredoc.unlines`), and it does not matter what they
begin with: it is enough that none of them closes the body (`Heredoc.Ragged`). Then the closing
label is found where it is (`Ragged.find?`), from the start of a line as well as from the middle of
one.
-/

namespace PhpFrontEnd

/-- A label: it starts with a letter, an underscore or a character above ASCII. -/
structure IsLabel (label : List Char) : Prop where
  start : nextIs isLabelStart label
  part : ∀ c ∈ label, isLabelPart c

instance (label : List Char) : Decidable (IsLabel label) :=
  decidable_of_iff (nextIs isLabelStart label && label.all isLabelPart) (by
    rw [Bool.and_eq_true, List.all_eq_true]
    exact ⟨fun h => ⟨h.1, h.2⟩, fun h => ⟨h.start, h.part⟩⟩)

/-- A label has at least one character. -/
theorem IsLabel.ne_nil {label : List Char} (h : IsLabel label) : label ≠ [] := by
  rintro rfl
  cases h.start

namespace Heredoc

variable {label line front back rest text indent : List Char} {lines full later : List (List Char)}
  {lineStart : Bool}

/-! ## Lines -/

/-- Lines with a line feed after each. -/
def unlines (lines : List (List Char)) : List Char := lines.flatMap (· ++ ['\n'])

theorem unlines_cons_append (line : List Char) (lines : List (List Char)) (text : List Char) :
    unlines (line :: lines) ++ text = line ++ '\n' :: (unlines lines ++ text) := by
  simp [unlines]

theorem unlines_append (lines more : List (List Char)) :
    unlines (lines ++ more) = unlines lines ++ unlines more :=
  List.flatMap_append

theorem length_unlines_cons (line : List Char) (lines : List (List Char)) :
    (unlines (line :: lines)).length = (unlines lines).length + (line.length + 1) := by
  simp [unlines]
  omega

theorem eq_nil_of_unlines_append (h : unlines lines ++ text = []) : lines = [] ∧ text = [] := by
  rcases lines with _ | ⟨line, lines⟩
  · exact ⟨rfl, h⟩
  · rw [unlines_cons_append] at h
    simp at h

/-- The first line of a text is what comes before its first line feed. -/
theorem Lines.of_line (noFeed : '\n' ∉ line) (rest : List Char) :
    Lines.of (line ++ '\n' :: rest) = ⟨line :: (Lines.of rest).complete, (Lines.of rest).last⟩ := by
  induction line with
  | nil => rw [List.nil_append, Lines.of]; exact if_pos rfl
  | cons c line ih =>
    simp only [List.mem_cons, not_or] at noFeed
    rw [List.cons_append, Lines.of, ih noFeed.2]
    exact if_neg (Ne.symm noFeed.1)

/-- A text is cut into the lines that it is made of. -/
theorem Lines.of_unlines (noFeeds : ∀ line ∈ lines, '\n' ∉ line) (noFeed : '\n' ∉ text) :
    Lines.of (unlines lines ++ text) = ⟨lines, text⟩ := by
  induction lines with
  | nil => exact Lines.of_eq noFeed
  | cons line lines ih =>
    obtain ⟨own, others⟩ := List.forall_mem_cons.1 noFeeds
    rw [unlines_cons_append, Lines.of_line own, ih others]

/-! ## Lines that close a body -/

/-- A line that does not close a body: whatever begins with the label after the blanks of the line
goes on to be another label. -/
def KeepsOpen (label line : List Char) : Prop :=
  ∀ after, line.dropWhile isIndent = label ++ after → nextIs isLabelPart after

/-- Whether a line keeps a body open, as it can be computed. -/
theorem keepsOpen_iff : KeepsOpen label line ↔ (label <+: line.dropWhile isIndent →
    nextIs isLabelPart ((line.dropWhile isIndent).drop label.length)) := by
  constructor
  · rintro keeps ⟨after, eq⟩
    rw [← eq, List.drop_left]
    exact keeps after eq.symm
  · intro keeps after eq
    have longer := keeps ⟨after, eq.symm⟩
    rwa [eq, List.drop_left] at longer

instance (label line : List Char) : Decidable (KeepsOpen label line) :=
  decidable_of_iff' _ keepsOpen_iff

/-- No character of a label is indentation. -/
theorem not_isIndent_of_isLabelPart {c : Char} (h : isLabelPart c) : isIndent c = false := by
  refine Bool.eq_false_iff.2 fun indent => ?_
  exact absurd (not_isBlank_of_isLabelPart h) (by simp [isBlank_of_isIndent indent])

theorem newline_not_mem_label (h : IsLabel label) : '\n' ∉ label :=
  fun mem => absurd (h.part _ mem) (by decide)

/-- A line that keeps a body open begins with no closing label. -/
theorem KeepsOpen.not_closing (h : KeepsOpen label line) (isLabel : IsLabel label)
    (rest : List Char) : closingIndent? label (line ++ '\n' :: rest) = none := by
  have behind : (line ++ '\n' :: rest).dropWhile isIndent =
      line.dropWhile isIndent ++ '\n' :: rest := by
    rw [List.dropWhile_append]
    split
    · rename_i blank
      rw [List.isEmpty_iff.1 blank]
      rfl
    · rfl
  unfold closingIndent?
  dsimp only
  rw [behind]
  refine if_neg fun closes => ?_
  rw [Bool.and_eq_true, List.isPrefixOf_iff_prefix, Bool.not_eq_true'] at closes
  obtain ⟨front, ends⟩ := closes
  -- the label holds no line feed, so it is in front of the line by itself
  have inLine : label <+: line.dropWhile isIndent := by
    rcases List.prefix_or_prefix_of_prefix front (List.prefix_append _ ('\n' :: rest)) with
      inLine | ⟨after, rfl⟩
    · exact inLine
    · rcases after with _ | ⟨c, after⟩
      · simp
      · rw [List.prefix_append_right_inj, List.cons_prefix_cons] at front
        exact absurd (front.1 ▸ List.mem_append_right _ List.mem_cons_self)
          (newline_not_mem_label isLabel)
  obtain ⟨after, eq⟩ := inLine
  have keeps := h after eq.symm
  rw [← eq, List.append_assoc, List.drop_left] at ends
  rcases after with _ | ⟨c, after⟩
  · cases keeps
  · exact absurd (ends.symm.trans keeps) (by decide)

/-- The closing label is where it was written. -/
theorem closingIndent?_label (isLabel : IsLabel label) (blank : ∀ c ∈ indent, isIndent c)
    (ends : nextIs isLabelPart rest = false) :
    closingIndent? label (indent ++ (label ++ rest)) = some indent.length := by
  obtain ⟨start, part⟩ := isLabel
  rcases label with _ | ⟨c, tail⟩
  · cases start
  have notIndent := not_isIndent_of_isLabelPart (part c List.mem_cons_self)
  have behind : (indent ++ (c :: tail ++ rest)).dropWhile isIndent = c :: tail ++ rest := by
    rw [List.dropWhile_append_of_pos blank]
    exact List.dropWhile_cons_of_neg (by simp [notIndent])
  have before : (indent ++ (c :: tail ++ rest)).takeWhile isIndent = indent := by
    rw [List.takeWhile_append_of_pos blank]
    exact (congrArg _ (List.takeWhile_cons_of_neg (by simp [notIndent]))).trans
      (List.append_nil _)
  unfold closingIndent?
  dsimp only
  rw [behind, before, List.drop_left, ends]
  refine if_pos ?_
  rw [Bool.not_false, Bool.and_true, List.isPrefixOf_iff_prefix]
  exact List.prefix_append _ _

/-! ## Bodies -/

/-- The lines that a part of a body starts. Of its first line the beginning may be missing. -/
def started (lineStart : Bool) (lines : List (List Char)) : List (List Char) :=
  if lineStart then lines else lines.drop 1

theorem mem_of_mem_started (mem : line ∈ started lineStart lines) : line ∈ lines := by
  cases lineStart with
  | false => exact List.mem_of_mem_drop mem
  | true => exact mem

/-- The lines up to a closing label, as far as they are left. Those that start here do not close the
body. -/
structure Ragged (label : List Char) (lineStart : Bool) (lines : List (List Char)) : Prop where
  isLabel : IsLabel label
  noFeed : ∀ line ∈ lines, '\n' ∉ line
  keeps : ∀ line ∈ started lineStart lines, KeepsOpen label line

/-- After its first line a body is at the start of a line. -/
theorem Ragged.tail (h : Ragged label lineStart (line :: lines)) : Ragged label true lines := by
  refine ⟨h.isLabel, fun other mem => h.noFeed other (List.mem_cons_of_mem _ mem), ?_⟩
  intro other mem
  refine h.keeps other ?_
  cases lineStart with
  | false => exact mem
  | true => exact List.mem_cons_of_mem _ mem

/-- What is left of a body in the middle of a line. -/
theorem Ragged.after (h : Ragged label lineStart (full ++ (front ++ back) :: later)) :
    Ragged label false (back :: later) := by
  induction full generalizing lineStart with
  | nil =>
    obtain ⟨own, others⟩ := List.forall_mem_cons.1 h.noFeed
    have noFeed : '\n' ∉ back := fun mem => own (List.mem_append_right _ mem)
    exact ⟨h.isLabel, List.forall_mem_cons.2 ⟨noFeed, others⟩, h.tail.keeps⟩
  | cons line full ih => exact ih h.tail

/-- The first line of a body does not close it. -/
theorem Ragged.not_closing (h : Ragged label lineStart (line :: lines)) (text : List Char)
    (starts : lineStart) : closingIndent? label (line ++ '\n' :: text) = none := by
  have first : line ∈ started lineStart (line :: lines) := by
    rw [started, if_pos starts]
    exact List.mem_cons_self
  exact (h.keeps line first).not_closing h.isLabel text

theorem ClosingLabel.shift_shift (found : ClosingLabel) (m n : Nat) :
    (found.shift m).shift n = found.shift (m + n) := by
  simp [shift, Nat.add_assoc]

/-- The search for a closing label ahead passes everything up to a line feed. -/
theorem ClosingLabel.ahead?_append (noFeed : '\n' ∉ front) (text : List Char) :
    ahead? label (front ++ text) = (ahead? label text).map (·.shift front.length) := by
  induction front with
  | nil =>
    rw [List.nil_append]
    rcases ahead? label text with _ | found <;> rfl
  | cons c front ih =>
    simp only [List.mem_cons, not_or] at noFeed
    rw [List.cons_append, ahead?, if_neg (Ne.symm noFeed.1), ih noFeed.2, Option.map_map]
    simp only [Function.comp_def, shift_shift, List.length_cons]

/-- The search for a closing label goes on after the end of a line. -/
theorem ClosingLabel.ahead?_line (noFeed : '\n' ∉ line) (rest : List Char) :
    ahead? label (line ++ '\n' :: rest) =
      (find? label true rest).map (·.shift (line.length + 1)) := by
  have feed : ahead? label ('\n' :: rest) = (find? label true rest).map (·.shift 1) := by
    rw [ahead?, if_pos rfl, find?, if_pos rfl]
    rcases here? label rest with _ | found <;> rfl
  rw [ahead?_append noFeed, feed, Option.map_map]
  simp only [Function.comp_def, shift_shift, Nat.add_comm 1]

/-- A line that begins with no closing label is passed. -/
theorem ClosingLabel.find?_of_none {text : List Char}
    (h : lineStart → closingIndent? label text = none) :
    find? label lineStart text = ahead? label text := by
  cases lineStart with
  | false => rfl
  | true => rw [find?, if_pos rfl, here?, h rfl]; rfl

/-- The search for a closing label passes the first line of a body. -/
theorem Ragged.find?_line (h : Ragged label lineStart (line :: lines)) (text : List Char) :
    ClosingLabel.find? label lineStart (unlines (line :: lines) ++ text) =
      (ClosingLabel.find? label true (unlines lines ++ text)).map (·.shift (line.length + 1)) := by
  rw [unlines_cons_append, ClosingLabel.find?_of_none (h.not_closing _),
    ClosingLabel.ahead?_line (h.noFeed line List.mem_cons_self)]

/-- The search for the closing label passes all lines. -/
theorem Ragged.find? (h : Ragged label lineStart (line :: lines))
    (blank : ∀ c ∈ indent, isIndent c) (ends : nextIs isLabelPart rest = false) :
    ClosingLabel.find? label lineStart (unlines (line :: lines) ++ (indent ++ (label ++ rest))) =
      some ⟨(unlines (line :: lines)).length,
        (unlines (line :: lines)).length + indent.length⟩ := by
  induction lines generalizing line lineStart with
  | nil =>
    have here : ClosingLabel.find? label true (unlines [] ++ (indent ++ (label ++ rest))) =
        some ⟨0, indent.length⟩ := by
      change ClosingLabel.find? label true (indent ++ (label ++ rest)) = _
      rw [ClosingLabel.find?, if_pos rfl, ClosingLabel.here?,
        closingIndent?_label h.isLabel blank ends]
      rfl
    rw [h.find?_line, here]
    simp [ClosingLabel.shift, unlines, Nat.add_comm]
  | cons second lines ih =>
    rw [h.find?_line, ih h.tail, length_unlines_cons line]
    simp only [Option.map_some, ClosingLabel.shift]
    congr 2
    omega

/-- What the search finds is the indentation. -/
theorem drop_take_indent (text indent rest : List Char) :
    ((text ++ (indent ++ rest)).take (text.length + indent.length)).drop text.length = indent := by
  rw [← List.append_assoc, ← List.length_append, List.take_left, List.drop_left]

/-- From the middle of a line the indentation of the closing label is found. -/
theorem Ragged.indentAhead (h : Ragged label false (line :: lines))
    (blank : ∀ c ∈ indent, isIndent c) (ends : nextIs isLabelPart rest = false) :
    HeredocBody.indentAhead label (unlines (line :: lines) ++ (indent ++ (label ++ rest))) =
      indent := by
  have ahead : ClosingLabel.ahead? label
      (unlines (line :: lines) ++ (indent ++ (label ++ rest))) = _ := h.find? blank ends
  rw [HeredocBody.indentAhead, ahead]
  exact drop_take_indent _ _ _

end Heredoc

end PhpFrontEnd
