import Mathlib.Data.List.Induction
import Mathlib.Data.List.Infix
import Mathlib.Data.List.TakeWhile
import PhpFrontEnd.Proofs.LineEndsInBodies

/-!
# The two checks of indentation

The lines of a heredoc have to begin with the indentation of its closing label. An earlier fragment
is checked line by line (`isIndentedBy`). The last one is checked at once: what its lines begin with
is narrowed down to an indentation they share, and that has to begin with the label's (`resolve`).

The shared indentation is known exactly (`isShared_foldl`). It is the least of all as long as there
is one, that is as long as the lines up to each have one among them that all of them go on with
(`LeastSoFar`). Once two lines go on differently, and no line before them told what they have in
common, nothing counts as shared any more.

So the check at once refuses what the check line by line refuses, and also those bodies, whose lines
all begin with the label's indentation and then differ (`resolve_eq_ok_iff`).
-/

namespace PhpFrontEnd.Heredoc

variable {text line rest indent : List Char} {indents : List (List Char)} {lineStart : Bool}

/-! ## Texts by lines -/

/-- A text is one line, or a line and then another text. -/
@[elab_as_elim]
theorem line_induction {motive : List Char → Prop}
    (last : ∀ line, '\n' ∉ line → motive line)
    (line : ∀ line rest, '\n' ∉ line → motive rest → motive (line ++ '\n' :: rest))
    (text : List Char) : motive text := by
  have noFeed := Lines.newline_not_mem text
  have noFeedLast : '\n' ∉ (Lines.of text).last := by
    clear noFeed
    induction text with
    | nil => exact List.not_mem_nil
    | cons c text ih =>
      unfold Lines.of
      dsimp only
      split
      · exact ih
      · rename_i other
        split
        · rw [List.mem_cons, not_or]
          exact ⟨Ne.symm other, ih⟩
        · exact ih
  rw [← Lines.join_of text]
  generalize (Lines.of text).complete = lines at noFeed
  induction lines with
  | nil => exact last _ noFeedLast
  | cons first more ih =>
    obtain ⟨own, others⟩ := List.forall_mem_cons.1 noFeed
    rw [List.flatMap_cons, List.append_assoc, List.append_assoc]
    exact line _ _ own (ih others)

/-- Carriage returns stand only in front of line feeds. -/
def ReturnsEndLines (text : List Char) : Prop :=
  ∀ back, '\r' :: back <:+ text → nextIs (· == '\n') back

instance (text : List Char) : Decidable (ReturnsEndLines text) :=
  decidable_of_iff (∀ tail ∈ text.tails, tail.head? = some '\r' → nextIs (· == '\n') (tail.drop 1))
    (by
      simp only [List.mem_tails]
      constructor
      · exact fun h back suffix => h _ suffix rfl
      · rintro h (_ | ⟨c, back⟩) suffix head
        · cases head
        · obtain rfl := Option.some.inj head
          exact h back suffix)

/-- The complete lines that a fragment starts. -/
def startedLines (text : List Char) (lineStart : Bool) : List (List Char) :=
  if lineStart then (Lines.of text).complete else (Lines.of text).complete.drop 1

theorem ReturnsEndLines.after_line (h : ReturnsEndLines (line ++ '\n' :: rest)) :
    ReturnsEndLines rest := fun back suffix =>
  h back (suffix.trans ((List.suffix_cons _ _).trans (List.suffix_append _ _)))

/-- In a line a carriage return comes last. -/
theorem ReturnsEndLines.in_line (h : ReturnsEndLines (line ++ '\n' :: rest)) (noFeed : '\n' ∉ line)
    {back : List Char} (suffix : '\r' :: back <:+ line) : back = [] := by
  obtain ⟨front, rfl⟩ := suffix
  have next := h (back ++ '\n' :: rest) ⟨front, by simp⟩
  rcases back with _ | ⟨c, back⟩
  · rfl
  · obtain rfl : c = '\n' := eq_of_beq next
    exact absurd (by simp) noFeed

/-! ## One line -/

/-- An indentation is at the front of a line if it is at the front of its blanks. -/
theorem prefix_takeWhile_iff {α : Type} {p : α → Bool} {front list : List α}
    (h : ∀ a ∈ front, p a) : front <+: list.takeWhile p ↔ front <+: list := by
  refine ⟨fun pre => pre.trans (List.takeWhile_prefix p), ?_⟩
  rintro ⟨back, rfl⟩
  rw [List.takeWhile_append_of_pos h]
  exact List.prefix_append _ _

/-- What lacks a character is at the front of a text if it is at the front of what comes before that
character. -/
theorem prefix_append_cons_iff {c : Char} (lacks : c ∉ indent) :
    indent <+: line ++ c :: rest ↔ indent <+: line := by
  refine ⟨fun pre => ?_, fun pre => pre.trans (List.prefix_append _ _)⟩
  rcases Nat.lt_or_ge line.length indent.length with longer | fits
  · have whole : line ++ [c] <+: indent := by
      refine List.prefix_of_prefix_length_le ⟨rest, by simp⟩ pre ?_
      rw [List.length_append]
      exact longer
    exact absurd (whole.subset (by simp)) lacks
  · exact List.prefix_of_prefix_length_le pre (List.prefix_append _ _) fits

theorem newline_not_mem_indent (h : ∀ c ∈ indent, isIndent c) : '\n' ∉ indent :=
  fun mem => Bool.false_ne_true (h _ mem)

theorem not_isContent_of_isIndent {c : Char} (h : isIndent c) : (!isContent c) = true := by
  rw [isContent, h]
  rfl

/-- The indentation that a line takes part with begins as the line does. -/
theorem prefix_indentOf? (h : ∀ c ∈ indent, isIndent c) {own : List Char}
    (some : indentOf? line = some own) : indent <+: own ↔ indent <+: line := by
  unfold indentOf? at some
  split at some
  · obtain rfl := Option.some.inj some
    exact prefix_takeWhile_iff fun c mem => not_isContent_of_isIndent (h c mem)
  · cases some

theorem indentOf?_isSome_iff : (indentOf? line).isSome ↔ ∃ c ∈ line, isContent c := by
  unfold indentOf?
  rw [← List.any_eq_true]
  cases line.any isContent <;> simp

/-- A complete line is checked if it has content. -/
theorem owes_line (h : ∀ c ∈ indent, isIndent c) (noFeed : '\n' ∉ line)
    (returns : ∀ back, '\r' :: back <:+ line → back = []) :
    owes indent (line ++ '\n' :: rest) ↔ ((∃ c ∈ line, isContent c) → indent <+: line) := by
  have split : line.takeWhile isIndent ++ line.dropWhile isIndent = line :=
    List.takeWhile_append_dropWhile
  have blanks : ∀ c ∈ line.takeWhile isIndent, isContent c = false := fun c mem => by
    have blank := not_isContent_of_isIndent (List.all_eq_true.1 List.all_takeWhile c mem)
    simpa using blank
  have goesOn : (line ++ '\n' :: rest).dropWhile isIndent =
      line.dropWhile isIndent ++ '\n' :: rest := by
    rw [List.dropWhile_append]
    rcases line.dropWhile isIndent with _ | ⟨c, more⟩ <;> rfl
  unfold owes
  rw [goesOn]
  rcases tail : line.dropWhile isIndent with _ | ⟨c, more⟩
  · -- blanks only
    refine iff_of_true rfl fun ⟨c, mem, content⟩ => ?_
    rw [tail, List.append_nil] at split
    rw [← split] at mem
    rw [blanks c mem] at content
    cases content
  rw [tail] at split
  have notBlank : isIndent c = false := by
    have head := List.head_dropWhile_not isIndent (l := line) (by rw [tail]; exact nofun)
    simpa [tail] using head
  have inLine : c ∈ line := split ▸ by simp
  have notFeed : c ≠ '\n' := fun feed => noFeed (feed ▸ inLine)
  by_cases carriage : c = '\r'
  · -- blanks and the first half of the line end
    refine iff_of_true (by simp [carriage]) fun ⟨d, mem, content⟩ => ?_
    have last : more = [] := returns more ⟨_, carriage ▸ split⟩
    rw [← split, last, carriage, List.mem_append, List.mem_singleton] at mem
    rcases mem with mem | rfl
    · rw [blanks d mem] at content
      cases content
    · cases content
  · have content : ∃ c ∈ line, isContent c := ⟨c, inLine, by simp [isContent, notBlank, carriage]⟩
    rw [List.cons_append]
    simp only [beq_eq_false_iff_ne.2 notFeed, beq_eq_false_iff_ne.2 carriage, Bool.false_or,
      List.isPrefixOf_iff_prefix, prefix_append_cons_iff (newline_not_mem_indent h)]
    exact ⟨fun pre _ => pre, fun pre => pre content⟩

/-! ## The check line by line -/

/-- A line of blanks that goes on with an interpolation has to begin with the indentation. -/
theorem owes_self (h : ∀ c ∈ indent, isIndent c) : owes indent indent := by
  rw [owes, List.dropWhile_eq_nil_iff.2 h]
  exact List.isPrefixOf_iff_prefix.2 List.prefix_rfl

/-- All lines of a text are checked if they have content, but the last one, which is the
indentation. -/
theorem owes_lineTails (blank : ∀ c ∈ (Lines.of text).last, isIndent c)
    (returns : ReturnsEndLines text) :
    (∀ tail ∈ text :: lineTails text, owes (Lines.of text).last tail) ↔
      ∀ line ∈ (Lines.of text).complete, (∃ c ∈ line, isContent c) →
        (Lines.of text).last <+: line := by
  induction text using line_induction with
  | last line noFeed =>
    rw [Lines.of_eq noFeed] at blank ⊢
    rw [lineTails_of_not_mem noFeed, List.forall_mem_singleton]
    exact iff_of_true (owes_self blank) nofun
  | line line rest noFeed ih =>
    rw [Lines.of_line noFeed] at blank ⊢
    dsimp only at blank ⊢
    rw [lineTails_line noFeed, List.forall_mem_cons, ih blank returns.after_line,
      owes_line blank noFeed fun _ => returns.in_line noFeed, List.forall_mem_cons]

/-- **The check line by line** asks every line that has content for the indentation. -/
theorem isIndentedBy_iff (blank : ∀ c ∈ (Lines.of text).last, isIndent c)
    (returns : ReturnsEndLines text) :
    isIndentedBy text lineStart (Lines.of text).last ↔
      ∀ line ∈ startedLines text lineStart, (∃ c ∈ line, isContent c) →
        (Lines.of text).last <+: line := by
  have checked : isIndentedBy text lineStart (Lines.of text).last ↔
      ∀ tail ∈ (if lineStart then [text] else []) ++ lineTails text,
        owes (Lines.of text).last tail := List.all_eq_true
  rw [checked]
  cases lineStart with
  | true => exact owes_lineTails blank returns
  | false =>
    -- what is checked begins after the first line feed
    rw [startedLines, if_neg Bool.false_ne_true, if_neg Bool.false_ne_true, List.nil_append]
    cases text using line_induction with
    | last line noFeed =>
      rw [Lines.of_eq noFeed, lineTails_of_not_mem noFeed]
      exact iff_of_true nofun nofun
    | line line rest noFeed _ =>
      rw [Lines.of_line noFeed] at blank ⊢
      rw [lineTails_line noFeed]
      exact owes_lineTails blank returns.after_line

/-! ## The check at once -/

/-- Up to each of some indentations there is one that all of them go on with. -/
def LeastSoFar (indents : List (List Char)) : Prop :=
  ∀ front, front <+: indents → front ≠ [] → ∃ least ∈ front, ∀ indent ∈ front, least <+: indent

theorem leastSoFar_nil : LeastSoFar [] := fun _ pre ne => absurd (List.prefix_nil.1 pre) ne

theorem leastSoFar_concat : LeastSoFar (indents ++ [indent]) ↔ LeastSoFar indents ∧
    ∃ least ∈ indents ++ [indent], ∀ other ∈ indents ++ [indent], least <+: other := by
  constructor
  · intro h
    exact ⟨fun front pre => h front (pre.trans (List.prefix_append _ _)),
      h _ List.prefix_rfl (by simp)⟩
  · rintro ⟨before, whole⟩ front pre ne
    rcases List.prefix_concat_iff.1 pre with rfl | pre
    · exact whole
    · exact before front pre ne

/-- What counts as shared by some indentations: the least of them, or nothing if they do not have
one all the way. -/
def IsShared (indents : List (List Char)) : Option (List Char) → Prop
  | none => indents = []
  | some shared =>
    LeastSoFar indents ∧ shared ∈ indents ∧ (∀ indent ∈ indents, shared <+: indent) ∨
      ¬LeastSoFar indents ∧ shared = []

/-- One more indentation. -/
theorem IsShared.share {shared : Option (List Char)} (h : IsShared indents shared)
    (indent : List Char) : IsShared (indents ++ [indent]) (share shared indent) := by
  rcases shared with _ | shared
  · obtain rfl : indents = [] := h
    exact .inl ⟨leastSoFar_concat.2 ⟨leastSoFar_nil, indent, by simp⟩, by simp, by simp⟩
  unfold Heredoc.share
  simp only [List.isPrefixOf_iff_prefix]
  rcases h with ⟨soFar, mem, least⟩ | ⟨notSoFar, rfl⟩
  · by_cases goesOn : shared <+: indent
    · -- the least stays the least
      rw [if_pos goesOn]
      have all : ∀ other ∈ indents ++ [indent], shared <+: other :=
        List.forall_mem_append.2 ⟨least, by simpa using goesOn⟩
      have inAll : shared ∈ indents ++ [indent] := List.mem_append_left _ mem
      exact .inl ⟨leastSoFar_concat.2 ⟨soFar, shared, inAll, all⟩, inAll, all⟩
    rw [if_neg goesOn]
    by_cases less : indent <+: shared
    · -- the new one is less than all
      rw [if_pos less]
      have all : ∀ other ∈ indents ++ [indent], indent <+: other :=
        List.forall_mem_append.2 ⟨fun other mem => less.trans (least other mem), by simp⟩
      have inAll : indent ∈ indents ++ [indent] := by simp
      exact .inl ⟨leastSoFar_concat.2 ⟨soFar, indent, inAll, all⟩, inAll, all⟩
    · -- what is less than both would be the new one, or one that goes on with the least
      rw [if_neg less]
      refine .inr ⟨fun h => ?_, rfl⟩
      obtain ⟨other, otherMem, all⟩ := (leastSoFar_concat.1 h).2
      have inShared : other <+: shared := all shared (List.mem_append_left _ mem)
      have inIndent : other <+: indent := all indent (by simp)
      rcases List.mem_append.1 otherMem with before | new
      · exact goesOn ((least other before).trans inIndent)
      · exact less (List.mem_singleton.1 new ▸ inShared)
  · rw [if_pos List.nil_prefix]
    exact .inr ⟨fun h => notSoFar (leastSoFar_concat.1 h).1, rfl⟩

/-- What remains when indentations are narrowed down one after the other. -/
theorem isShared_foldl (indents : List (List Char)) :
    IsShared indents (indents.foldl Heredoc.share none) := by
  induction indents using List.reverseRecOn with
  | nil => rfl
  | append_singleton indents indent ih =>
    rw [List.foldl_append, List.foldl_cons, List.foldl_nil]
    exact ih.share indent

/-- The indentations of the lines that a fragment starts and that have content. -/
def checkedIndents (text : List Char) (lineStart : Bool) : List (List Char) :=
  (startedLines text lineStart).filterMap indentOf?

/-- An indentation is at the front of all lines with content if it is at the front of theirs. -/
theorem forall_checkedIndents_iff (h : ∀ c ∈ indent, isIndent c) :
    (∀ own ∈ checkedIndents text lineStart, indent <+: own) ↔
      ∀ line ∈ startedLines text lineStart, (∃ c ∈ line, isContent c) → indent <+: line := by
  constructor
  · intro all line mem content
    obtain ⟨own, some⟩ := Option.isSome_iff_exists.1 (indentOf?_isSome_iff.2 content)
    exact (prefix_indentOf? h some).1 (all own (List.mem_filterMap.2 ⟨line, mem, some⟩))
  · intro all own mem
    obtain ⟨line, lineMem, some⟩ := List.mem_filterMap.1 mem
    have content := indentOf?_isSome_iff.1 (Option.isSome_of_eq_some some)
    exact (prefix_indentOf? h some).2 (all line lineMem content)

theorem resolve_eq (text : List Char) (lineStart : Bool) : resolve text lineStart =
    match (checkedIndents text lineStart).foldl share none with
    | none => .ok (Lines.of text).last.length
    | some shared =>
      if (Lines.of text).last.isPrefixOf shared then .ok (Lines.of text).last.length
      else .error ⟨shared.length⟩ := rfl

/-- **The check at once** asks the same, and that the indentations have a least one all the way
unless the label has none. -/
theorem resolve_eq_ok_iff (blank : ∀ c ∈ (Lines.of text).last, isIndent c) {width : Nat} :
    resolve text lineStart = .ok width ↔ width = (Lines.of text).last.length ∧
      (∀ line ∈ startedLines text lineStart, (∃ c ∈ line, isContent c) →
        (Lines.of text).last <+: line) ∧
      ((Lines.of text).last = [] ∨ LeastSoFar (checkedIndents text lineStart)) := by
  rw [resolve_eq, ← forall_checkedIndents_iff blank]
  have known := isShared_foldl (checkedIndents text lineStart)
  rcases folded : (checkedIndents text lineStart).foldl share none with _ | shared
  · rw [folded] at known
    rw [show checkedIndents text lineStart = [] from known, Except.ok.injEq]
    exact ⟨fun eq => ⟨eq.symm, nofun, .inr leastSoFar_nil⟩, fun h => h.1.symm⟩
  rw [folded] at known
  have fits : (Lines.of text).last <+: shared ↔
      (∀ own ∈ checkedIndents text lineStart, (Lines.of text).last <+: own) ∧
        ((Lines.of text).last = [] ∨ LeastSoFar (checkedIndents text lineStart)) := by
    rcases known with ⟨soFar, mem, least⟩ | ⟨notSoFar, rfl⟩
    · exact ⟨fun pre => ⟨fun own ownMem => pre.trans (least own ownMem), .inr soFar⟩,
        fun h => h.1 shared mem⟩
    · rw [List.prefix_nil]
      constructor
      · intro nil
        rw [nil]
        exact ⟨fun _ _ => List.nil_prefix, .inl rfl⟩
      · exact fun h => h.2.resolve_right notSoFar
  rw [← fits, ← List.isPrefixOf_iff_prefix]
  dsimp only
  split
  · rename_i pre
    rw [Except.ok.injEq, eq_comm, and_iff_left pre]
  · rename_i notPre
    exact iff_of_false nofun fun h => notPre h.2

/-- **The two checks** of a fragment that ends in the indentation of the closing label. Both ask
each line that has content for that indentation. The check at once asks in addition that the
indentations of these lines have a least one all the way, unless the label has none; the width it
gives is then the label's. -/
theorem checks_agree_iff (blank : ∀ c ∈ (Lines.of text).last, isIndent c)
    (returns : ReturnsEndLines text) (lineStart : Bool) :
    (isIndentedBy text lineStart (Lines.of text).last ↔
      ∀ line ∈ startedLines text lineStart, (∃ c ∈ line, isContent c) →
        (Lines.of text).last <+: line) ∧
    ∀ width, resolve text lineStart = .ok width ↔ width = (Lines.of text).last.length ∧
      isIndentedBy text lineStart (Lines.of text).last ∧
      ((Lines.of text).last = [] ∨ LeastSoFar (checkedIndents text lineStart)) := by
  refine ⟨isIndentedBy_iff blank returns, fun width => ?_⟩
  rw [resolve_eq_ok_iff blank, isIndentedBy_iff blank returns]

/-- Lines with line ends of two characters, one of them blank. -/
theorem checks_agree_iff_crlf :
    let text := "    a\r\n\r\n  \t b\r\n  ".toList
    (∀ c ∈ (Lines.of text).last, isIndent c) ∧ ReturnsEndLines text ∧
      (isIndentedBy text false (Lines.of text).last ↔
        ∀ line ∈ startedLines text false, (∃ c ∈ line, isContent c) →
          (Lines.of text).last <+: line) ∧
      ∀ width, resolve text false = .ok width ↔ width = (Lines.of text).last.length ∧
        isIndentedBy text false (Lines.of text).last ∧
        ((Lines.of text).last = [] ∨ LeastSoFar (checkedIndents text false)) := by
  have blank : ∀ c ∈ (Lines.of "    a\r\n\r\n  \t b\r\n  ".toList).last, isIndent c :=
    List.all_eq_true.1 rfl
  have returns : ReturnsEndLines "    a\r\n\r\n  \t b\r\n  ".toList := by decide
  exact ⟨blank, returns, checks_agree_iff blank returns false⟩

/-- Both lines begin with the indentation of the label, but one goes on with a tab and the other
with a space. -/
theorem refused_at_once :
    let text := "  \ta\n   b\n  ".toList
    (∀ c ∈ (Lines.of text).last, isIndent c) ∧ ReturnsEndLines text ∧
      ¬((∃ width, resolve text true = .ok width) ↔
        isIndentedBy text true (Lines.of text).last) := by
  refine ⟨List.all_eq_true.1 rfl, by decide, fun h => ?_⟩
  obtain ⟨width, ok⟩ := h.2 (by decide)
  have refused : resolve "  \ta\n   b\n  ".toList true = .error ⟨0⟩ := by rfl
  rw [refused] at ok
  cases ok

end PhpFrontEnd.Heredoc
