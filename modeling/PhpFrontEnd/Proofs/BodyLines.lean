import PhpFrontEnd.Proofs.RaggedBodies

/-!
# Bodies made of indented lines

A body is written as lines, each with the indentation of the closing label in front. What the
functions on fragments make of it is told here for a fragment as it occurs in general
(`Heredoc.joined`): some lines, all but the first indented, and the first as well if the fragment
starts it. Whatever fragment of a body that is, the same indentation is found for it, each of its
lines loses as much, and no problem is reported (`Body.dedentLast`, `dedentEarlier_joined`).

Lines that hold nothing but blanks take no part in finding the indentation, and need not: the
indentations of all other lines begin with that of the closing label, and they can be compared
because they are made of spaces only.
-/

namespace PhpFrontEnd

namespace Heredoc

/-- The indentation of a closing label. -/
def spaces (n : Nat) : List Char := List.replicate n ' '

/-- A line that a body with a closing label can hold. Its own indentation is made of spaces, and
whatever begins with the label after it goes on to be another label. -/
structure IsLine (label line : List Char) : Prop where
  noFeed : '\n' ∉ line
  noReturn : '\r' ∉ line
  noTab : '\t' ∉ line.takeWhile isIndent
  stays : ∀ after, line.dropWhile isIndent = label ++ after → nextIs isLabelPart after

/-- Lines as they are written: each with an indentation, and a line feed after it. -/
def indented (n : Nat) (lines : List (List Char)) : List Char :=
  lines.flatMap fun line => spaces n ++ line ++ ['\n']

/-- Lines with a line feed and an indentation between any two of them. -/
def joined (n : Nat) (lines : List (List Char)) : List Char :=
  List.intercalate ('\n' :: spaces n) lines

/-- The indentation of the first line of a fragment, if the fragment starts it. -/
def lead (n : Nat) (lineStart : Bool) : List Char := if lineStart then spaces n else []

/-- The lines of a fragment with the indentation that is in front of them. -/
def written (n : Nat) (lineStart : Bool) (first : List Char) (more : List (List Char)) :
    List (List Char) :=
  (lead n lineStart ++ first) :: more.map (spaces n ++ ·)

variable {label line first rest : List Char} {lines more : List (List Char)} {n : Nat}
  {lineStart : Bool}

/-! ## Lines -/

theorem isLine_iff : IsLine label line ↔ '\n' ∉ line ∧ '\r' ∉ line ∧
    '\t' ∉ line.takeWhile isIndent ∧ KeepsOpen label line :=
  ⟨fun h => ⟨h.noFeed, h.noReturn, h.noTab, h.stays⟩,
    fun h => ⟨h.1, h.2.1, h.2.2.1, h.2.2.2⟩⟩

instance (label line : List Char) : Decidable (IsLine label line) :=
  decidable_of_iff' _ isLine_iff

theorem joined_singleton (n : Nat) (line : List Char) : joined n [line] = line :=
  List.intercalate_singleton

/-- Between two lines come a line feed and the indentation. -/
theorem joined_cons_cons (n : Nat) (first second : List Char) (more : List (List Char)) :
    joined n (first :: second :: more) =
      first ++ '\n' :: (spaces n ++ joined n (second :: more)) := by
  rw [joined, List.intercalate_cons_cons, List.append_assoc]
  rfl

theorem joined_cons_append (n : Nat) (front back : List Char) (more : List (List Char)) :
    joined n ((front ++ back) :: more) = front ++ joined n (back :: more) := by
  rcases more with _ | ⟨second, more⟩
  · rw [joined_singleton, joined_singleton]
  · rw [joined_cons_cons, joined_cons_cons, List.append_assoc]

/-- What is written in the middle of a line belongs to that line. -/
theorem joined_append (n : Nat) (before : List (List Char)) (front back : List Char)
    (more : List (List Char)) : joined n (before ++ [front]) ++ joined n (back :: more) =
      joined n (before ++ (front ++ back) :: more) := by
  induction before with
  | nil =>
    rw [List.nil_append, List.nil_append, joined_singleton, joined_cons_append]
  | cons line before ih =>
    obtain ⟨next, later, eq⟩ := List.exists_cons_of_ne_nil
      (show before ++ [front] ≠ [] by simp)
    obtain ⟨next', later', eq'⟩ := List.exists_cons_of_ne_nil
      (show before ++ (front ++ back) :: more ≠ [] by simp)
    rw [eq, eq'] at ih
    rw [List.cons_append, List.cons_append, eq, eq', joined_cons_cons, joined_cons_cons, ← ih]
    simp

/-- An empty line at the end is a line feed and the indentation. -/
theorem joined_cons_concat (n : Nat) (first : List Char) (more : List (List Char)) :
    joined n (first :: more ++ [[]]) = first ++ '\n' :: (spaces n ++ joined n (more ++ [[]])) := by
  obtain ⟨second, later, eq⟩ := List.exists_cons_of_ne_nil (show more ++ [[]] ≠ [] by simp)
  rw [List.cons_append, eq, joined_cons_cons]

/-- The lines as they are written, up to the closing label. -/
theorem indented_append (n : Nat) (lines : List (List Char)) :
    indented n lines ++ spaces n = spaces n ++ joined n (lines ++ [[]]) := by
  induction lines with
  | nil => rw [List.nil_append, joined_singleton]; simp [indented]
  | cons line more ih =>
    rw [joined_cons_concat, ← ih]
    simp [indented]

theorem written_cons (n : Nat) (lineStart : Bool) (first second : List Char)
    (more : List (List Char)) : written n lineStart first (second :: more) =
      (lead n lineStart ++ first) :: written n true second more := rfl

/-- A fragment is the lines as they are written, and a last one. -/
theorem lead_append_joined (n : Nat) (lineStart : Bool) (first : List Char)
    (more : List (List Char)) (last : List Char) :
    lead n lineStart ++ joined n (first :: more ++ [last]) =
      unlines (written n lineStart first more) ++ (spaces n ++ last) := by
  induction more generalizing first lineStart with
  | nil =>
    rw [List.singleton_append, joined_cons_cons, joined_singleton, written, List.map_nil,
      unlines_cons_append, List.append_assoc]
    rfl
  | cons second more ih =>
    have later := ih true second
    rw [lead, if_pos rfl, List.cons_append] at later
    rw [List.cons_append, List.cons_append, joined_cons_cons, later, written_cons,
      unlines_cons_append, List.append_assoc]

/-- Up to the closing label. -/
theorem lead_append_joined_nil (n : Nat) (lineStart : Bool) (first : List Char)
    (more : List (List Char)) : lead n lineStart ++ joined n (first :: more ++ [[]]) =
      unlines (written n lineStart first more) ++ spaces n := by
  rw [lead_append_joined, List.append_nil]

/-- Nothing but line feeds and spaces is added to the lines. -/
theorem mem_joined {c : Char} (h : c ∈ joined n lines) (ne : c ≠ '\n') (ne' : c ≠ ' ') :
    ∃ line ∈ lines, c ∈ line := by
  induction lines with
  | nil => cases h
  | cons first more ih =>
    rcases more with _ | ⟨second, more⟩
    · rw [joined_singleton] at h
      exact ⟨first, List.mem_cons_self, h⟩
    · rw [joined_cons_cons, List.mem_append, List.mem_cons, List.mem_append] at h
      rcases h with h | h | h | h
      · exact ⟨first, List.mem_cons_self, h⟩
      · exact absurd h ne
      · exact absurd (List.eq_of_mem_replicate h) ne'
      · obtain ⟨line, mem, inLine⟩ := ih h
        exact ⟨line, List.mem_cons_of_mem _ mem, inLine⟩

theorem newline_not_mem_spaces (n : Nat) : '\n' ∉ spaces n :=
  fun mem => by cases List.eq_of_mem_replicate mem

theorem newline_not_mem_lead (n : Nat) (lineStart : Bool) : '\n' ∉ lead n lineStart := by
  cases lineStart with
  | false => exact List.not_mem_nil
  | true => exact newline_not_mem_spaces n

/-! ## Closing labels -/

/-- Spaces are indentation. -/
theorem isIndent_spaces (n : Nat) : ∀ c ∈ spaces n, isIndent c := by
  intro c mem
  rw [List.eq_of_mem_replicate mem]
  rfl

theorem dropWhile_spaces (n : Nat) (text : List Char) :
    (spaces n ++ text).dropWhile isIndent = text.dropWhile isIndent :=
  List.dropWhile_append_of_pos (isIndent_spaces n)

/-- Spaces in front add to the indentation of a line. -/
theorem takeWhile_spaces (n : Nat) (text : List Char) :
    (spaces n ++ text).takeWhile isIndent = spaces n ++ text.takeWhile isIndent :=
  List.takeWhile_append_of_pos (isIndent_spaces n)

/-- A line closes no body, however far it is indented. -/
theorem IsLine.keepsOpen (h : IsLine label line) (n : Nat) :
    KeepsOpen label (spaces n ++ line) := by
  intro after eq
  rw [dropWhile_spaces] at eq
  exact h.stays after eq

/-- The lines up to a closing label, as far as they are left: the rest of the first one, and all
others. -/
structure Body (label first : List Char) (more : List (List Char)) (lineStart : Bool) : Prop where
  isLabel : IsLabel label
  noFeed : '\n' ∉ first
  whole : lineStart → IsLine label first
  lines : ∀ line ∈ more, IsLine label line

/-- Lines stay lines when they are indented. -/
theorem newline_not_mem_written (noFeed : '\n' ∉ first) (h : ∀ line ∈ more, '\n' ∉ line) (n : Nat)
    (lineStart : Bool) : ∀ line ∈ written n lineStart first more, '\n' ∉ line := by
  refine List.forall_mem_cons.2 ⟨?_, List.forall_mem_map.2 fun line mem => ?_⟩
  · simp [newline_not_mem_lead, noFeed]
  · simp [newline_not_mem_spaces, h line mem]

/-- As they are written the lines do not close the body either. -/
theorem Body.ragged (h : Body label first more lineStart) (n : Nat) :
    Ragged label lineStart (written n lineStart first more) := by
  have noFeeds := newline_not_mem_written h.noFeed (fun line mem => (h.lines line mem).noFeed) n
  have later : ∀ line ∈ more.map (spaces n ++ ·), KeepsOpen label line :=
    List.forall_mem_map.2 fun line mem => (h.lines line mem).keepsOpen n
  refine ⟨h.isLabel, noFeeds lineStart, ?_⟩
  cases lineStart with
  | false => exact later
  | true => exact List.forall_mem_cons.2 ⟨(h.whole rfl).keepsOpen n, later⟩

/-- The search tells where the closing label begins. -/
theorem Body.exists_found (h : Body label first more lineStart)
    (ends : nextIs isLabelPart rest = false) (n : Nat) :
    ∃ found, ClosingLabel.find? label lineStart
        (lead n lineStart ++ joined n (first :: more ++ [[]]) ++ (label ++ rest)) = some found ∧
      found.labelStart = (lead n lineStart ++ joined n (first :: more ++ [[]])).length := by
  rw [lead_append_joined_nil, List.append_assoc]
  exact ⟨_, (h.ragged n).find? (isIndent_spaces n) ends, List.length_append.symm⟩

/-! ## The indentation of whole bodies -/

/-- The lines of a fragment up to the closing label. -/
theorem Lines.of_joined (noFeed : '\n' ∉ first) (h : ∀ line ∈ more, '\n' ∉ line) (n : Nat)
    (lineStart : Bool) : Lines.of (lead n lineStart ++ joined n (first :: more ++ [[]])) =
      ⟨written n lineStart first more, spaces n⟩ := by
  rw [lead_append_joined_nil]
  exact of_unlines (newline_not_mem_written noFeed h n lineStart) (newline_not_mem_spaces n)

/-- Indentations of which the smallest is at least `n`, or no indentation. -/
def AtLeast (n : Nat) (shared : Option (List Char)) : Prop :=
  ∀ indent, shared = some indent → ∃ m ≥ n, indent = spaces m

/-- Fewer spaces begin more spaces. -/
theorem isPrefixOf_spaces {m n : Nat} (le : m ≤ n) : (spaces m).isPrefixOf (spaces n) = true := by
  refine List.isPrefixOf_iff_prefix.2 ⟨spaces (n - m), ?_⟩
  rw [spaces, spaces, spaces, List.replicate_append_replicate, Nat.add_sub_cancel' le]

/-- Of two indentations made of spaces, one goes on with the other. -/
theorem AtLeast.share {shared : Option (List Char)} (h : AtLeast n shared) {m : Nat} (le : n ≤ m) :
    AtLeast n (share shared (spaces m)) := by
  intro indent eq
  rcases shared with _ | before
  · exact ⟨m, le, (Option.some.inj eq).symm⟩
  obtain ⟨k, le', rfl⟩ := h before rfl
  rw [Heredoc.share] at eq
  split at eq
  · exact ⟨k, le', (Option.some.inj eq).symm⟩
  · rename_i notLess
    rcases Nat.le_total k m with less | more
    · exact absurd (isPrefixOf_spaces less) notLess
    · rw [if_pos (isPrefixOf_spaces more)] at eq
      exact ⟨m, le, (Option.some.inj eq).symm⟩

/-- What lines share is no less than the least indentation of them. -/
theorem AtLeast.foldl {indents : List (List Char)}
    (h : ∀ indent ∈ indents, ∃ m ≥ n, indent = spaces m)
    {shared : Option (List Char)} (start : AtLeast n shared) :
    AtLeast n (indents.foldl Heredoc.share shared) := by
  induction indents generalizing shared with
  | nil => exact start
  | cons indent indents ih =>
    obtain ⟨m, le, rfl⟩ := h indent List.mem_cons_self
    exact ih (fun other mem => h other (List.mem_cons_of_mem _ mem)) (start.share le)

theorem takeWhile_not_isContent (noReturn : '\r' ∉ line) :
    line.takeWhile (!isContent ·) = line.takeWhile isIndent := by
  induction line with
  | nil => rfl
  | cons c line ih =>
    simp only [List.mem_cons, not_or] at noReturn
    have same : (!isContent c) = isIndent c := by
      simp [isContent, Ne.symm noReturn.1]
    rw [List.takeWhile_cons, List.takeWhile_cons, same, ih noReturn.2]

/-- The indentation of a line with content begins with that of the closing label. -/
theorem IsLine.indentOf? (h : IsLine label line) {indent : List Char}
    (some : Heredoc.indentOf? (spaces n ++ line) = some indent) : ∃ m ≥ n, indent = spaces m := by
  unfold Heredoc.indentOf? at some
  split at some
  · obtain rfl := Option.some.inj some
    have noReturn : '\r' ∉ spaces n ++ line := by
      rw [List.mem_append, not_or]
      exact ⟨(fun mem => nomatch List.eq_of_mem_replicate mem), h.noReturn⟩
    have own : line.takeWhile isIndent = spaces (line.takeWhile isIndent).length := by
      refine List.eq_replicate_of_mem fun c mem => ?_
      have indent : isIndent c := List.all_eq_true.1 List.all_takeWhile c mem
      have blank : c = ' ' ∨ c = '\t' := by simpa [isIndent] using indent
      exact blank.resolve_right fun tab => h.noTab (tab ▸ mem)
    refine ⟨n + (line.takeWhile isIndent).length, Nat.le_add_right _ _, ?_⟩
    rw [takeWhile_not_isContent noReturn, takeWhile_spaces, own, spaces, spaces,
      List.replicate_append_replicate]
    simp [spaces]
  · cases some

/-- The indentation that is found is that of the closing label. -/
theorem Body.resolve (h : Body label first more lineStart) (n : Nat) :
    Heredoc.resolve (lead n lineStart ++ joined n (first :: more ++ [[]])) lineStart = .ok n := by
  have lines := Lines.of_joined h.noFeed (fun line mem => (h.lines line mem).noFeed) n lineStart
  have indents : ∀ indent ∈ (if lineStart then (lead n lineStart ++ first) ::
      more.map (spaces n ++ ·) else more.map (spaces n ++ ·)).filterMap Heredoc.indentOf?,
      ∃ m ≥ n, indent = spaces m := by
    intro indent mem
    obtain ⟨line, mem, some⟩ := List.mem_filterMap.1 mem
    have later (mem : line ∈ more.map (spaces n ++ ·)) : ∃ m ≥ n, indent = spaces m := by
      obtain ⟨own, inMore, rfl⟩ := List.mem_map.1 mem
      exact (h.lines own inMore).indentOf? some
    split at mem
    · rename_i start
      rcases List.mem_cons.1 mem with rfl | mem
      · rw [lead, if_pos start] at some
        exact (h.whole start).indentOf? some
      · exact later mem
    · exact later mem
  have atLeast := @AtLeast.foldl n _ indents none nofun
  unfold Heredoc.resolve
  rw [lines]
  dsimp only [List.drop_one, List.tail_cons]
  split
  · rw [spaces, List.length_replicate]
  · rename_i indent found
    obtain ⟨m, le, rfl⟩ := atLeast indent found
    rw [if_pos (isPrefixOf_spaces le), spaces, List.length_replicate]

/-! ## Dedenting -/

/-- Spaces are taken away as long as some are owed. -/
theorem dedentFrom_spaces (width left : Nat) (text : List Char) :
    dedentFrom width left (spaces left ++ text) = dedentFrom width 0 text := by
  induction left with
  | zero => rfl
  | succ left ih =>
    rw [spaces, List.replicate_succ, List.cons_append, dedentFrom, if_pos ⟨Nat.succ_pos _, rfl⟩]
    exact ih

/-- Every line but the first loses the indentation in front of it. -/
theorem dedentFrom_joined (h : ∀ line ∈ first :: more, '\n' ∉ line) (n : Nat) :
    dedentFrom n 0 (joined n (first :: more)) = joined 0 (first :: more) := by
  induction more generalizing first with
  | nil =>
    rw [joined_singleton, joined_singleton, dedentFrom_zero (h first List.mem_cons_self)]
  | cons second more ih =>
    have noFeed := h first List.mem_cons_self
    rw [joined_cons_cons, joined_cons_cons, dedentFrom_append _ noFeed, dedentFrom_zero noFeed,
      dedentFrom_spaces, ih fun line mem => h line (List.mem_cons_of_mem _ mem)]
    rfl

/-- Lines lose the indentation of the closing label. -/
theorem dedent_joined (h : ∀ line ∈ first :: more, '\n' ∉ line) (n : Nat) (lineStart : Bool) :
    dedent (lead n lineStart ++ joined n (first :: more)) lineStart n =
      joined 0 (first :: more) := by
  rw [← dedentFrom_joined h n]
  cases lineStart with
  | false => rfl
  | true => exact dedentFrom_spaces n n _

/-- Written lines with line feeds between them are the text of the fragment. -/
theorem intercalate_written (n : Nat) (lineStart : Bool) (first : List Char)
    (more : List (List Char)) : List.intercalate ['\n'] (written n lineStart first more) =
      lead n lineStart ++ joined n (first :: more) := by
  induction more generalizing first lineStart with
  | nil => rw [written, List.map_nil, List.intercalate_singleton, joined_singleton]
  | cons second more ih =>
    rw [written_cons, written, List.intercalate_cons_cons, ← written, ih, joined_cons_cons]
    simp [lead]

/-- The body of a fragment up to the closing label ends before the last line feed. -/
theorem Body.finalBody (h : Body label first more lineStart) (noReturn : '\r' ∉ first) (n : Nat) :
    Heredoc.finalBody (lead n lineStart ++ joined n (first :: more ++ [[]])) =
      lead n lineStart ++ joined n (first :: more) := by
  have lines := Lines.of_joined h.noFeed (fun line mem => (h.lines line mem).noFeed) n lineStart
  have plain : '\r' ∉ lead n lineStart ++ joined n (first :: more) := by
    rw [List.mem_append, not_or]
    refine ⟨fun mem => ?_, fun mem => ?_⟩
    · unfold lead at mem
      split at mem
      · cases List.eq_of_mem_replicate mem
      · cases mem
    · obtain ⟨line, mem, inLine⟩ := mem_joined mem (by decide) (by decide)
      rcases List.mem_cons.1 mem with rfl | mem
      · exact noReturn inLine
      · exact (h.lines line mem).noReturn inLine
  unfold Heredoc.finalBody
  rw [lines]
  dsimp only
  rw [intercalate_written]
  exact if_neg fun last => plain (List.mem_of_getLast? last)

/-- No line of a body has a line feed in it. -/
theorem Body.noFeeds (h : Body label first more lineStart) :
    ∀ line ∈ first :: more, '\n' ∉ line := by
  intro line mem
  rcases List.mem_cons.1 mem with rfl | mem
  · exact h.noFeed
  · exact (h.lines line mem).noFeed

/-- What is left of a body in the middle of a line. -/
theorem Body.after {full after : List (List Char)} {front back : List Char}
    (h : Body label first more lineStart)
    (eq : first :: more = full ++ (front ++ back) :: after) : Body label back after false := by
  have noFeed : '\n' ∉ front ++ back :=
    h.noFeeds _ (eq ▸ List.mem_append_right _ List.mem_cons_self)
  have later : ∀ line ∈ after, line ∈ more := by
    rcases full with _ | ⟨line, full⟩
    · obtain ⟨-, rfl⟩ := List.cons.inj eq
      exact fun _ mem => mem
    · obtain ⟨-, rfl⟩ := List.cons.inj eq
      exact fun _ mem => List.mem_append_right _ (List.mem_cons_of_mem _ mem)
  exact ⟨h.isLabel, fun mem => noFeed (List.mem_append_right _ mem), nofun,
    fun line mem => h.lines line (later line mem)⟩

/-- **The last fragment of a body** is left with its lines, and its indentation is right. -/
theorem Body.dedentLast (h : Body label first more lineStart) (noReturn : '\r' ∉ first) (n : Nat) :
    Heredoc.dedentLast (lead n lineStart ++ joined n (first :: more ++ [[]])) lineStart =
      ⟨false, joined 0 (first :: more)⟩ := by
  rw [Heredoc.dedentLast, h.resolve n, h.finalBody noReturn]
  dsimp only
  rw [dedent_joined h.noFeeds]

/-! ## Earlier fragments -/

theorem lineTails_of_not_mem (noFeed : '\n' ∉ line) : lineTails line = [] := by
  induction line with
  | nil => rfl
  | cons c line ih =>
    simp only [List.mem_cons, not_or] at noFeed
    rw [lineTails, if_neg (Ne.symm noFeed.1), ih noFeed.2]

theorem lineTails_line (noFeed : '\n' ∉ line) (rest : List Char) :
    lineTails (line ++ '\n' :: rest) = rest :: lineTails rest := by
  induction line with
  | nil => rw [List.nil_append, lineTails, if_pos rfl]
  | cons c line ih =>
    simp only [List.mem_cons, not_or] at noFeed
    rw [List.cons_append, lineTails, if_neg (Ne.symm noFeed.1), ih noFeed.2]

/-- After every line feed comes the indentation. -/
theorem prefix_of_mem_lineTails {a : List Char} (noFeed : '\n' ∉ a)
    (h : ∀ line ∈ first :: more, '\n' ∉ line) :
    ∀ tail ∈ lineTails (a ++ joined n (first :: more)), spaces n <+: tail := by
  induction more generalizing a first with
  | nil =>
    have whole : '\n' ∉ a ++ first := by simp [noFeed, h first List.mem_cons_self]
    rw [joined_singleton, lineTails_of_not_mem whole]
    exact nofun
  | cons second more ih =>
    have whole : '\n' ∉ a ++ first := by simp [noFeed, h first List.mem_cons_self]
    rw [joined_cons_cons, ← List.append_assoc, lineTails_line whole]
    intro tail mem
    rcases List.mem_cons.1 mem with rfl | mem
    · exact List.prefix_append _ _
    · exact ih (newline_not_mem_spaces n) (fun line mem => h line (List.mem_cons_of_mem _ mem))
        tail mem

/-- **An earlier fragment of a body** is left with its lines, and its indentation is right. -/
theorem dedentEarlier_joined (h : ∀ line ∈ first :: more, '\n' ∉ line) (n : Nat)
    (lineStart : Bool) :
    dedentEarlier (lead n lineStart ++ joined n (first :: more)) (spaces n) lineStart =
      ⟨false, joined 0 (first :: more)⟩ := by
  have starts : ∀ line ∈
      (if lineStart then [lead n lineStart ++ joined n (first :: more)] else []) ++
        lineTails (lead n lineStart ++ joined n (first :: more)), spaces n <+: line := by
    intro line mem
    rcases List.mem_append.1 mem with mem | mem
    · split at mem
      · rename_i start
        rw [List.mem_singleton.1 mem, lead, if_pos start]
        exact List.prefix_append _ _
      · cases mem
    · exact prefix_of_mem_lineTails (newline_not_mem_lead n lineStart) h line mem
  have indented : isIndentedBy (lead n lineStart ++ joined n (first :: more)) lineStart (spaces n) =
      true := by
    refine List.all_eq_true.2 fun line mem => ?_
    have front := List.isPrefixOf_iff_prefix.2 (starts line mem)
    split
    · exact front
    · rw [front, Bool.or_true]
  rw [dedentEarlier, indented, spaces, List.length_replicate, dedent_joined h]
  rfl

end Heredoc

end PhpFrontEnd
