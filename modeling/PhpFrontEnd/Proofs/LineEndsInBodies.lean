import PhpFrontEnd.Proofs.BodyLines
import PhpFrontEnd.Proofs.LineEndsInText
import PhpFrontEnd.Proofs.LineStart

/-!
# Heredocs over other line ends

A body is cut at its line feeds, so a carriage return stays at the end of each line. It is neither
indentation nor content (`owes_crlf`, `indentOf?_return`), the last one goes with the last line
feed (`finalBody_crlf`), and no closing label begins or ends with it. So the same line closes the
body (`ClosingLabel.find?_crlf`), the same fragments come before it (`fragment_crlf`), and dedenting
them leaves the same texts but for the line ends (`dedentLast_crlf`, `dedentEarlier_crlf`).

In an escape at the end of a line the two texts part for one character: a backslash takes a
carriage return along, though it does not take a line feed. They meet again at the line feed.
-/

namespace PhpFrontEnd

variable {text label source source' after : List Char} {lineStart : Bool} {c : Char} {m n : Nat}
  {a b : Context}

namespace Heredoc

/-! ## Closing labels -/

/-- A closing label and the blanks before it are on one line, and the character behind it is read as
no part of it. -/
theorem closingIndent?_crlf (h : OnLine label) (text : List Char) :
    closingIndent? label (crlf text) = closingIndent? label text := by
  unfold closingIndent?
  rw [dropWhile_crlf rfl, @takeWhile_crlf_line isIndent rfl rfl]
  dsimp only
  by_cases front : label <+: text.dropWhile isIndent
  · rw [isPrefixOf_crlf h, (Takes.of_word front h).drop_eq, nextIs_crlf rfl]
  · have none : label.isPrefixOf (text.dropWhile isIndent) = false := by
      rw [← Bool.not_eq_true, List.isPrefixOf_iff_prefix]
      exact front
    rw [isPrefixOf_crlf h, none, Bool.false_and, Bool.false_and]

/-- The indentation of a closing label has no line end. -/
theorem takes_closingIndent {indent : Nat} (h : closingIndent? label text = some indent) :
    Takes text indent indent := by
  rw [(closingIndent?_eq_some h).1]
  exact .run rfl text

/-- Closing labels with the same indentation, each at the start of a line of its text. -/
structure SameLabel (text : List Char) (found found' : ClosingLabel) : Prop where
  lineStart : Takes text found.lineStart found'.lineStart
  indent : ∃ width, found.labelStart = found.lineStart + width ∧
    found'.labelStart = found'.lineStart + width ∧ Takes (text.drop found.lineStart) width width

namespace SameLabel

variable {found found' : ClosingLabel}

/-- The label itself is found at the same place. -/
theorem labelStart (h : SameLabel text found found') :
    Takes text found.labelStart found'.labelStart := by
  obtain ⟨width, eq, eq', blanks⟩ := h.indent
  rw [eq, eq']
  exact h.lineStart.add blanks

/-- A character in front moves both findings by one. -/
theorem char (h : SameLabel text found found') (ne : c ≠ '\n') :
    SameLabel (c :: text) (found.shift 1) (found'.shift 1) := by
  obtain ⟨width, eq, eq', blanks⟩ := h.indent
  refine ⟨h.lineStart.char ne, width, ?_, ?_, blanks⟩
  · simp only [ClosingLabel.shift, eq, Nat.add_right_comm]
  · simp only [ClosingLabel.shift, eq', Nat.add_right_comm]

/-- A line end in front moves them by its length. -/
theorem newline (h : SameLabel text found found') :
    SameLabel ('\n' :: text) (found.shift 1) ((found'.shift 1).shift 1) := by
  obtain ⟨width, eq, eq', blanks⟩ := h.indent
  refine ⟨h.lineStart.newline, width, ?_, ?_, blanks⟩
  · simp only [ClosingLabel.shift, eq, Nat.add_right_comm]
  · simp only [ClosingLabel.shift, eq', Nat.add_right_comm]

end SameLabel

/-- On the line in front the same label is found. -/
theorem ClosingLabel.here?_crlf (h : OnLine label) (text : List Char) :
    Option.Rel (SameLabel text) (here? label text) (here? label (crlf text)) := by
  unfold here?
  rw [closingIndent?_crlf h]
  rcases closes : closingIndent? label text with _ | indent
  · exact .none
  · exact .some ⟨.none text, indent, (Nat.zero_add _).symm, (Nat.zero_add _).symm,
      takes_closingIndent closes⟩

/-- Whether the first line counts is the same, so the search from there decides. -/
theorem ClosingLabel.find?_of_ahead (h : OnLine label) (lineStart : Bool)
    (later : Option.Rel (SameLabel text) (ahead? label text) (ahead? label (crlf text))) :
    Option.Rel (SameLabel text) (find? label lineStart text)
      (find? label lineStart (crlf text)) := by
  have first : Option.Rel (SameLabel text) (if lineStart then here? label text else none)
      (if lineStart then here? label (crlf text) else none) :=
    rel_ite Iff.rfl (fun _ => here?_crlf h text) fun _ => .none
  unfold find?
  generalize (if lineStart then here? label text else none) = here,
    (if lineStart then here? label (crlf text) else none) = here' at first
  cases first with
  | none => exact later
  | some same => exact .some same

theorem ClosingLabel.ahead?_cons (ne : c ≠ '\n') (text : List Char) :
    ahead? label (c :: text) = (ahead? label text).map (·.shift 1) :=
  if_neg ne

/-- After a line feed the search begins with a whole line. -/
theorem ClosingLabel.ahead?_newline (text : List Char) :
    ahead? label ('\n' :: text) = (find? label true text).map (·.shift 1) :=
  ahead?_line List.not_mem_nil text

/-- The same line closes both bodies. -/
theorem ClosingLabel.ahead?_crlf (h : OnLine label) (text : List Char) :
    Option.Rel (SameLabel text) (ahead? label text) (ahead? label (crlf text)) := by
  induction text using crlf_induction with
  | nil => exact .none
  | newline text ih =>
    rw [crlf_newline, ahead?_newline, ahead?_cons (by decide), ahead?_newline, Option.map_map]
    exact rel_map (find?_of_ahead h true ih) .newline
  | char c text ne ih =>
    rw [crlf_cons ne, ahead?_cons ne, ahead?_cons ne]
    exact rel_map ih (.char · ne)

/-- The search in a nowdoc finds the same label. -/
theorem ClosingLabel.find?_crlf (h : OnLine label) (lineStart : Bool) (text : List Char) :
    Option.Rel (SameLabel text) (find? label lineStart text)
      (find? label lineStart (crlf text)) :=
  find?_of_ahead h lineStart (ahead?_crlf h text)

/-! ## Lines -/

/-- The lines of a text hold no line feeds. -/
theorem Lines.newline_not_mem (text : List Char) :
    ∀ line ∈ (Lines.of text).complete, '\n' ∉ line := by
  induction text with
  | nil => exact nofun
  | cons c text ih =>
    unfold Lines.of
    dsimp only
    split
    · exact List.forall_mem_cons.2 ⟨List.not_mem_nil, ih⟩
    · rename_i other
      split
      · exact nofun
      · rename_i line more lines
        rw [lines, List.forall_mem_cons] at ih
        refine List.forall_mem_cons.2 ⟨?_, ih.2⟩
        rw [List.mem_cons, not_or]
        exact ⟨Ne.symm other, ih.1⟩

/-- Every complete line ends in a carriage return. -/
theorem Lines.of_crlf (text : List Char) : Lines.of (crlf text) =
    ⟨(Lines.of text).complete.map (· ++ ['\r']), (Lines.of text).last⟩ := by
  induction text using crlf_induction with
  | nil => rfl
  | newline text ih =>
    simp [crlf_newline, Lines.of, ih]
  | char c text ne ih =>
    rw [crlf_cons ne, Lines.of, Lines.of, ih, if_neg ne, if_neg ne]
    cases (Lines.of text).complete <;> rfl

/-- A carriage return at the end of a line is neither indentation nor content. -/
theorem indentOf?_return (line : List Char) : indentOf? (line ++ ['\r']) = indentOf? line := by
  have noContent : isContent '\r' = false := rfl
  unfold indentOf?
  rw [List.any_append, List.any_cons, noContent, List.any_nil, Bool.or_false, Bool.or_false]
  refine if_ctx_congr Iff.rfl (fun content => ?_) fun _ => rfl
  obtain ⟨c, mem, own⟩ := List.any_eq_true.1 content
  rw [List.takeWhile_append, if_neg fun whole => ?_]
  -- the content ends the indentation before the carriage return is reached
  rw [← (List.takeWhile_prefix _).eq_of_length whole] at mem
  have blank := List.all_eq_true.1 List.all_takeWhile _ mem
  rw [own] at blank
  cases blank

/-- The same indentation is removed from the last fragment. -/
theorem resolve_crlf (text : List Char) (lineStart : Bool) :
    resolve (crlf text) lineStart = resolve text lineStart := by
  have indents (lines : List (List Char)) :
      (lines.map (· ++ ['\r'])).filterMap indentOf? = lines.filterMap indentOf? := by
    rw [List.filterMap_map]
    exact congrArg (List.filterMap · lines) (funext indentOf?_return)
  unfold resolve
  rw [Lines.of_crlf]
  dsimp only
  rw [← List.map_drop, ← apply_ite (List.map _), indents]

/-- Lines with carriage returns make the text with other line ends, and one carriage return. -/
theorem intercalate_returns {lines : List (List Char)} (ne : lines ≠ [])
    (h : ∀ line ∈ lines, '\n' ∉ line) : List.intercalate ['\n'] (lines.map (· ++ ['\r'])) =
      crlf (List.intercalate ['\n'] lines) ++ ['\r'] := by
  induction lines with
  | nil => exact absurd rfl ne
  | cons first more ih =>
    obtain ⟨own, others⟩ := List.forall_mem_cons.1 h
    rcases more with _ | ⟨second, more⟩
    · rw [List.map_singleton, List.intercalate_singleton, List.intercalate_singleton,
        crlf_eq_self own]
    · have later := ih (List.cons_ne_nil _ _) others
      rw [List.map_cons] at later
      rw [List.map_cons, List.map_cons, List.intercalate_cons_cons, later,
        List.intercalate_cons_cons, crlf_append, crlf_append, crlf_eq_self own]
      simp [crlf]

/-- Lines with a line end between them, and one at the end, are lines that end. -/
theorem intercalate_concat (lineEnd : List Char) {lines : List (List Char)} (ne : lines ≠ []) :
    List.intercalate lineEnd lines ++ lineEnd = lines.flatMap (· ++ lineEnd) := by
  induction lines with
  | nil => exact absurd rfl ne
  | cons first more ih =>
    rcases more with _ | ⟨second, more⟩
    · simp
    · rw [List.intercalate_cons_cons, List.append_assoc, ih (List.cons_ne_nil _ _)]
      rfl

/-- Without carriage returns the last fragment loses nothing but its last line and the line feed. -/
theorem finalBody_of_not_mem (noReturn : '\r' ∉ text) :
    finalBody text = List.intercalate ['\n'] (Lines.of text).complete := by
  refine if_neg fun last => noReturn ?_
  have mem := List.mem_of_getLast? last
  have lines : (Lines.of text).complete ≠ [] := by
    intro nil
    rw [nil] at mem
    cases mem
  rw [← Lines.join_of text, ← intercalate_concat _ lines]
  exact List.mem_append_left _ (List.mem_append_left _ mem)

/-- The body ends before the last line end, whatever that is. -/
theorem finalBody_crlf (noReturn : '\r' ∉ text) :
    finalBody (crlf text) = crlf (finalBody text) := by
  rw [finalBody_of_not_mem noReturn]
  unfold finalBody
  rw [Lines.of_crlf]
  dsimp only
  by_cases nil : (Lines.of text).complete = []
  · rw [nil]
    rfl
  · rw [intercalate_returns nil (Lines.newline_not_mem text), List.getLast?_concat, if_pos rfl,
      List.dropLast_concat]

/-- Indentation is on one line. -/
theorem dedentFrom_crlf (width left : Nat) (text : List Char) :
    dedentFrom width left (crlf text) = crlf (dedentFrom width left text) := by
  induction text using crlf_induction generalizing left with
  | nil => rfl
  | newline text ih =>
    have lineReturn : isIndent '\r' = false := rfl
    have lineFeed : isIndent '\n' = false := rfl
    simp [crlf_newline, dedentFrom, ih, lineReturn, lineFeed]
  | char c text ne ih =>
    rw [crlf_cons ne, dedentFrom, dedentFrom, ih, ih]
    split
    · rfl
    · exact (crlf_cons ne _).symm

/-- Taking indentation away leaves the line ends as they are. -/
theorem dedent_crlf (text : List Char) (lineStart : Bool) (width : Nat) :
    dedent (crlf text) lineStart width = crlf (dedent text lineStart width) :=
  dedentFrom_crlf width _ text

/-- The last fragment is found wrong alike, and what is left of it has the same lines. -/
theorem dedentLast_crlf (noReturn : '\r' ∉ source) (lineStart : Bool) :
    dedentLast (crlf source) lineStart =
      ⟨(dedentLast source lineStart).wrong, crlf (dedentLast source lineStart).body⟩ := by
  unfold dedentLast
  rw [resolve_crlf, finalBody_crlf noReturn]
  split
  · rw [dedent_crlf]
  · rw [dedent_crlf]

/-- The tails of a text, one after each line feed, are those of the other text. -/
theorem lineTails_crlf (text : List Char) : lineTails (crlf text) = (lineTails text).map crlf := by
  induction text using crlf_induction with
  | nil => rfl
  | newline text ih =>
    rw [crlf_newline, lineTails, if_neg (by decide), lineTails, if_pos rfl, lineTails, if_pos rfl,
      ih, List.map_cons]
  | char c text ne ih =>
    rw [crlf_cons ne, lineTails, if_neg ne, lineTails, if_neg ne, ih]

/-- Whether a line begins with an indentation, unless it is empty. -/
def owes (indent line : List Char) : Bool :=
  match line.dropWhile isIndent with
  | [] => indent.isPrefixOf line
  | c :: _ => c == '\n' || c == '\r' || indent.isPrefixOf line

/-- Whether a line owes indentation is told by its characters before the line end. -/
theorem owes_crlf {indent : List Char} (h : OnLine indent) (line : List Char) :
    owes indent (crlf line) = owes indent line := by
  unfold owes
  rw [dropWhile_crlf rfl, isPrefixOf_crlf h]
  rcases line.dropWhile isIndent with _ | ⟨c, rest⟩
  · rfl
  by_cases newline : c = '\n'
  · subst newline
    rfl
  · rw [crlf_cons newline]

/-- A fragment in front of an interpolation is checked with the same result. -/
theorem isIndentedBy_crlf {indent : List Char} (h : OnLine indent) (text : List Char)
    (lineStart : Bool) : isIndentedBy (crlf text) lineStart indent =
      isIndentedBy text lineStart indent := by
  have lines : (if lineStart then [crlf text] else []) ++ lineTails (crlf text) =
      ((if lineStart then [text] else []) ++ lineTails text).map crlf := by
    rw [lineTails_crlf, List.map_append]
    cases lineStart <;> rfl
  change List.all _ (owes indent) = List.all _ (owes indent)
  rw [lines, List.all_map]
  exact congrArg (List.all _ ·) (funext (owes_crlf h))

theorem dedentEarlier_crlf {indent : List Char} (h : OnLine indent) (source : List Char)
    (lineStart : Bool) : dedentEarlier (crlf source) indent lineStart =
      ⟨(dedentEarlier source indent lineStart).wrong,
        crlf (dedentEarlier source indent lineStart).body⟩ := by
  unfold dedentEarlier
  rw [isIndentedBy_crlf h, dedent_crlf]

end Heredoc

namespace HeredocBody

open Heredoc

/-! ## Opening -/

/-- Openings with the same label. -/
structure SameOpening (text : List Char) (opening opening' : Opening) : Prop where
  takes : Takes text opening.length opening'.length
  label : opening'.label = opening.label
  isNowdoc : opening'.isNowdoc = opening.isNowdoc
  isLabel : ∀ c ∈ opening.label, isLabelPart c

/-- The quote in front of a label, if there is one. -/
def openingQuote (text : List Char) : List Char :=
  (text.head?.filter fun c => c == '\x27' || c == '"').toList

/-- A quote in front of a label stays there. -/
theorem openingQuote_crlf (text : List Char) : openingQuote (crlf text) = openingQuote text := by
  induction text using crlf_induction with
  | nil => rfl
  | newline text _ => rfl
  | char c text ne _ =>
    rw [crlf_cons ne]
    rfl

theorem openingQuote_front (text : List Char) :
    openingQuote text <+: text ∧ OnLine (openingQuote text) := by
  unfold openingQuote
  rcases text with _ | ⟨c, text⟩
  · exact ⟨List.prefix_refl [], nofun⟩
  rw [List.head?_cons, Option.filter_some]
  split
  · rename_i own
    refine ⟨⟨text, rfl⟩, fun d mem => ?_⟩
    obtain rfl := List.mem_singleton.1 mem
    constructor <;> (rintro rfl; cases own)
  · exact ⟨List.nil_prefix, nofun⟩

/-- An opening, told by the quote after its blanks. -/
theorem after?_of_blanks (text : List Char) : Opening.after? text =
    let blanks := (text.takeWhile isIndent).length
    let quote := openingQuote (text.drop blanks)
    let rest := (text.drop blanks).drop quote.length
    let label := rest.takeWhile isLabelPart
    if nextIs isLabelStart label && quote.isPrefixOf (rest.drop label.length) then
      (lineEndLength? ((rest.drop label.length).drop quote.length)).map fun lineEnd =>
        { label
          isNowdoc := quote == ['\x27']
          length := blanks + 2 * quote.length + label.length + lineEnd }
    else none :=
  rfl

/-- The same opening is in front of both texts. -/
theorem Opening.after?_crlf (noReturn : '\r' ∉ text) :
    Option.Rel (SameOpening text) (after? text) (after? (crlf text)) := by
  have blanks := @Takes.run isIndent rfl text
  rw [after?_of_blanks, after?_of_blanks, @takeWhile_crlf_line isIndent rfl rfl]
  dsimp only
  rw [blanks.drop_eq, openingQuote_crlf]
  have noReturn' := not_mem_drop noReturn (text.takeWhile isIndent).length
  generalize eq : text.drop (text.takeWhile isIndent).length = rest at noReturn' ⊢
  obtain ⟨front, line⟩ := openingQuote_front rest
  generalize openingQuote rest = quote at front line ⊢
  have opens := Takes.of_word front line
  have label := @Takes.run isLabelPart rfl (rest.drop quote.length)
  rw [opens.drop_eq, @takeWhile_crlf_line isLabelPart rfl rfl, label.drop_eq]
  refine rel_ite (by rw [isPrefixOf_crlf line]) (fun closed => ?_) fun _ => .none
  rw [Bool.and_eq_true, List.isPrefixOf_iff_prefix] at closed
  have closes := Takes.of_word closed.2 line
  rw [closes.drop_eq]
  refine rel_map (lineEndLength?_crlf ?_) fun {m n} ends => ⟨?_, rfl, rfl, fun c => ?_⟩
  · exact not_mem_drop (not_mem_drop (not_mem_drop noReturn' _) _) _
  · subst eq
    have all := blanks.add (opens.add (label.add (closes.add ends)))
    refine all.congr ?_ ?_ <;> (dsimp only; omega)
  · exact List.all_eq_true.1 List.all_takeWhile c

/-- A heredoc is opened with either line end, with the same label and kind. -/
theorem openingStep?_crlf (h : a.Alike b) (noReturn : '\r' ∉ text) {before : Nat}
    (front : Takes text (before + 3) (before + 3)) :
    Option.Rel (Step.Alike text) (openingStep? a text before)
      (openingStep? b (crlf text) before) := by
  unfold openingStep?
  rw [front.drop_eq]
  refine rel_map (Opening.after?_crlf (not_mem_drop noReturn _)) fun {opening opening'} same => ?_
  dsimp only
  rw [same.label, same.isNowdoc]
  exact ⟨front.add same.takes, rfl, (h.withLabel same.isLabel).push _, rfl⟩

/-! ## Fragments -/

/-- Fragments that end alike. -/
structure SameEnd (text : List Char) (found found' : Nat × FragmentEnd) : Prop where
  takes : Takes text found.1 found'.1
  ending : found'.2 = found.2

theorem SameEnd.char {found found' : Nat × FragmentEnd} (h : SameEnd text found found')
    (ne : c ≠ '\n') : SameEnd (c :: text) (passed 1 found) (passed 1 found') :=
  ⟨h.takes.char ne, h.ending⟩

/-- A line end in front is taken along with its length. -/
theorem SameEnd.newline {found found' : Nat × FragmentEnd} (h : SameEnd text found found') :
    SameEnd ('\n' :: text) (passed 1 found) (passed 2 found') :=
  ⟨h.takes.newline, h.ending⟩

/-- At an interpolation a fragment ends before it begins. -/
theorem fragment_of_starts
    (h : (if lineStart then closingIndent? label text else none) = none)
    (starts : Interpolation.startsAt text) :
    fragment label lineStart text = (0, .interpolation) := by
  rw [fragment.eq_def]
  rcases text with _ | ⟨c, text⟩
  · cases starts
  · simp only [h, starts]
    rfl

/-- A backslash takes the character after it along. -/
theorem fragment_escape
    (h : (if lineStart then closingIndent? label ('\\' :: c :: text) else none) = none)
    (taken : c ≠ '\n' ∧ c ≠ '\x00') :
    fragment label lineStart ('\\' :: c :: text) = passed 2 (fragment label false text) := by
  have starts : Interpolation.startsAt ('\\' :: c :: text) = false := rfl
  rw [fragment.eq_def]
  simp only [h, starts, taken, ne_eq, not_false_eq_true, and_self, if_true]
  rfl

theorem fragment_return
    (h : (if lineStart then closingIndent? label ('\r' :: text) else none) = none) :
    fragment label lineStart ('\r' :: text) = passed 1 (fragment label false text) :=
  fragment_passes h rfl fun eq => absurd eq (by decide)

/-- A fragment goes on alike over a character of both texts. -/
theorem SameEnd.of_passes (h : OnLine label)
    (here : (if lineStart then closingIndent? label (c :: text) else none) = none)
    (starts : ¬Interpolation.startsAt (c :: text))
    (escape : c = '\\' → nextIs isTaken text = false)
    (later : SameEnd text (fragment label (c == '\n') text)
      (fragment label (c == '\n') (crlf text))) :
    SameEnd (c :: text) (passed 1 (fragment label (c == '\n') text))
      (fragment label lineStart (crlf (c :: text))) := by
  rw [← closingIndent?_crlf h] at here
  rw [Bool.not_eq_true, ← Interpolation.startsAt_crlf] at starts
  by_cases newline : c = '\n'
  · subst newline
    rw [crlf_newline] at here ⊢
    have feed : fragment label false ('\n' :: crlf text) =
        passed 1 (fragment label true (crlf text)) :=
      fragment_passes rfl rfl fun eq => absurd eq (by decide)
    rw [fragment_return here, feed, passed_passed]
    exact later.newline
  have same : fragment label lineStart (c :: crlf text) =
      passed 1 (fragment label (c == '\n') (crlf text)) := by
    rw [crlf_cons newline] at here starts
    by_cases feed : c = '\\' ∧ nextIs (· == '\n') text
    · -- here the backslash takes the carriage return along
      obtain ⟨rfl, feed⟩ := feed
      obtain ⟨rest, rfl⟩ := exists_cons_of_nextIs feed
      rw [crlf_newline] at here ⊢
      have lineReturn : fragment label false ('\r' :: '\n' :: crlf rest) = _ := fragment_return rfl
      rw [fragment_escape here (by decide), show ('\\' == '\n') = false from rfl, lineReturn,
        passed_passed]
    · refine fragment_passes here starts fun eq => ?_
      have plain := escape eq
      rcases text with _ | ⟨d, text⟩
      · rfl
      · rw [crlf_cons fun own => feed ⟨eq, beq_iff_eq.2 own⟩]
        exact plain
  rw [crlf_cons newline, same]
  exact later.char newline

/-- A fragment ends alike in both texts. -/
theorem fragment_crlf (h : OnLine label) (lineStart : Bool) (text : List Char) :
    SameEnd text (fragment label lineStart text) (fragment label lineStart (crlf text)) := by
  have closed {lineStart : Bool} {text : List Char} {indent : Nat}
      (here : (if lineStart then closingIndent? label text else none) = some indent) :
      SameEnd text (0, .label indent) (fragment label lineStart (crlf text)) := by
    cases lineStart with
    | false => cases here
    | true =>
      rw [if_pos rfl, ← closingIndent?_crlf h] at here
      rw [fragment_of_closing here]
      exact ⟨.none text, rfl⟩
  fun_induction fragment label lineStart text with
  | case1 lineStart found here => exact closed here
  | case2 lineStart here =>
    rw [show crlf [] = [] from rfl, fragment.eq_def, here]
    exact ⟨.none [], rfl⟩
  | case3 lineStart c rest found here => exact closed here
  | case4 lineStart c rest here starts =>
    rw [← closingIndent?_crlf h] at here
    rw [← Interpolation.startsAt_crlf] at starts
    rw [fragment_of_starts here starts]
    exact ⟨.none _, rfl⟩
  | case5 lineStart c here plain ih => exact .of_passes h here plain (fun _ => rfl) ih
  | case6 lineStart c next rest escaped here plain ih =>
    obtain ⟨rfl, taken⟩ := escaped
    rw [← closingIndent?_crlf h] at here
    rw [crlf_cons (by decide), crlf_cons taken.1] at here ⊢
    rw [fragment_escape here taken]
    exact ⟨(ih.takes.char taken.1).char (by decide), ih.ending⟩
  | case7 lineStart c next rest notEscape here plain ih =>
    refine .of_passes h here plain (fun eq => ?_) ih
    simpa [nextIs, isTaken, eq] using notEscape

/-! ## Steps in a body -/

/-- A nowdoc decodes nothing, and a heredoc decodes with the same success. -/
theorem decodeFragment_crlf (settings : Settings) (isNowdoc : Bool) (body : List Char) :
    (decodeFragment settings isNowdoc (crlf body)).invalidCodePoint =
      (decodeFragment settings isNowdoc body).invalidCodePoint := by
  cases isNowdoc with
  | false => exact invalidCodePoint_crlf _ body
  | true => rfl

/-- A dedented fragment of which something is left. -/
theorem emitDedented_alike (settings : Settings) (h : a.Alike b) (isNowdoc : Bool)
    (takes : Takes text source.length source'.length) (wrong : Bool) (body : List Char) :
    Step.Alike text
      { Step.emitRun a source (decodeFragment settings isNowdoc body) with
        errors := Dedented.errors ⟨wrong, body⟩ ++
          (decodeFragment settings isNowdoc body).errors source }
      { Step.emitRun b source' (decodeFragment settings isNowdoc (crlf body)) with
        errors := Dedented.errors ⟨wrong, crlf body⟩ ++
          (decodeFragment settings isNowdoc (crlf body)).errors source' } := by
  refine ⟨takes, rfl, h, ?_⟩
  rw [List.map_append, List.map_append,
    Decoded.variants_eq (decodeFragment_crlf settings isNowdoc body) source source']
  rfl

/-- The last fragment of a body is taken alike. -/
theorem closeStep_crlf (settings : Settings) (h : a.Alike b) (isNowdoc lineStart : Bool)
    (noReturn : '\r' ∉ text) (takes : Takes text m n) :
    (closeStep settings a isNowdoc lineStart (text.take m)).Alike text
      (closeStep settings b isNowdoc lineStart ((crlf text).take n)) := by
  have taken := takes.taken
  have noReturn' : '\r' ∉ text.take m := fun mem => noReturn (List.mem_of_mem_take mem)
  rw [takes.take_eq] at taken ⊢
  rw [closeStep_eq, closeStep_eq, dedentLast_crlf noReturn']
  refine rel_ite (by rw [isEmpty_crlf]) (fun _ => ⟨taken, rfl, h.enter _, rfl⟩) fun _ => ?_
  exact (emitDedented_alike settings h isNowdoc taken _ _).change _

/-- The closing label ahead has the same indentation. -/
theorem indentAhead_crlf (h : OnLine label) (noReturn : '\r' ∉ after) :
    indentAhead label (crlf after) = indentAhead label after ∧
      OnLine (indentAhead label after) := by
  have found := ClosingLabel.ahead?_crlf h after
  unfold indentAhead
  generalize ClosingLabel.ahead? label after = found?,
    ClosingLabel.ahead? label (crlf after) = found?' at found
  cases found with
  | none => exact ⟨rfl, nofun⟩
  | some same =>
    obtain ⟨width, eq, eq', blanks⟩ := same.indent
    dsimp only
    rw [eq, eq', List.drop_take, List.drop_take, same.lineStart.drop_eq, Nat.add_sub_cancel_left,
      Nat.add_sub_cancel_left, blanks.take_eq_self]
    refine ⟨rfl, fun c mem => ⟨?_, ?_⟩⟩
    · rintro rfl
      exact blanks.newline_not_mem rfl mem
    · rintro rfl
      exact not_mem_drop noReturn _ (List.mem_of_mem_take mem)

/-- A fragment that an interpolation ends is taken alike. -/
theorem fragmentStep_crlf (settings : Settings) (h : a.Alike b) (isLabel : OnLine label)
    (lineStart : Bool) (noReturn : '\r' ∉ text) (takes : Takes text m n) :
    (fragmentStep settings a label lineStart (text.take m) (text.drop m)).Alike text
      (fragmentStep settings b label lineStart ((crlf text).take n) ((crlf text).drop n)) := by
  have taken := takes.taken
  obtain ⟨same, line⟩ := indentAhead_crlf isLabel (not_mem_drop noReturn m)
  rw [takes.take_eq] at taken ⊢
  rw [takes.drop_eq, fragmentStep_eq, fragmentStep_eq, same, dedentEarlier_crlf line]
  exact emitDedented_alike settings h false taken _ _

theorem onLine_of_label (h : ∀ c ∈ label, isLabelPart c) : OnLine label := by
  intro c mem
  have part := h c mem
  constructor <;> (rintro rfl; cases part)

/-- In the body of a heredoc the same is read. -/
theorem heredocStep_crlf (settings : Settings) (h : a.Alike b) (lineStart : Bool)
    (noReturn : '\r' ∉ text) :
    (heredocStep settings a lineStart text).Alike text
      (heredocStep settings b lineStart (crlf text)) := by
  unfold heredocStep
  rw [h.label]
  rcases held : a.label with _ | label
  · exact ⟨.none _, rfl, h.pop, rfl⟩
  have line := onLine_of_label (h.isLabel label held)
  have same := fragment_crlf line lineStart text
  have closes {indent : Nat} := @fragment_closesAt label.toList text lineStart indent
  have starts := @fragment_startsAt label.toList text lineStart
  dsimp only
  generalize fragment label.toList lineStart text = found,
    fragment label.toList lineStart (crlf text) = found' at same closes starts
  obtain ⟨length, ending⟩ := found
  obtain ⟨length', ending'⟩ := found'
  obtain ⟨takes, rfl⟩ : Takes text length length' ∧ ending' = ending := ⟨same.takes, same.ending⟩
  cases ending' with
  | label indent =>
    have upToLabel := takes.add (takes_closingIndent (closes rfl).here)
    exact closeStep_crlf settings h false lineStart noReturn upToLabel
  | interpolation =>
    refine rel_ite takes.eq_zero_iff (fun zero => Interpolation.step_crlf h ?_) fun _ =>
      fragmentStep_crlf settings h line lineStart noReturn takes
    obtain rfl : length = 0 := zero
    exact starts rfl
  | source => exact Step.emitRun_alike h (.all text) (decodeFragment_crlf settings false text)

/-- In the body of a nowdoc the same is read. -/
theorem nowdocStep_crlf (settings : Settings) (h : a.Alike b) (lineStart : Bool)
    (noReturn : '\r' ∉ text) :
    (nowdocStep settings a lineStart text).Alike text
      (nowdocStep settings b lineStart (crlf text)) := by
  unfold nowdocStep
  rw [h.label]
  rcases held : a.label with _ | label
  · exact ⟨.none _, rfl, h.pop, rfl⟩
  have line := onLine_of_label (h.isLabel label held)
  have found := ClosingLabel.find?_crlf line lineStart text
  dsimp only
  generalize ClosingLabel.find? label.toList lineStart text = found?,
    ClosingLabel.find? label.toList lineStart (crlf text) = found?' at found
  cases found with
  | none => exact Step.emitRun_alike h (.all text) (decodeFragment_crlf settings true text)
  | some same => exact closeStep_crlf settings h true lineStart noReturn same.labelStart

theorem closingStep_crlf (h : a.Alike b) (text : List Char) :
    (closingStep a text).Alike text (closingStep b (crlf text)) := by
  have blanks := @Takes.run isIndent rfl text
  unfold closingStep
  rw [@takeWhile_crlf_line isIndent rfl rfl]
  dsimp only
  rw [h.label, blanks.drop_eq]
  rcases held : a.label with _ | label
  · exact ⟨blanks, rfl, h.pop, rfl⟩
  have line := onLine_of_label (h.isLabel label held)
  dsimp only
  rw [isPrefixOf_crlf line]
  refine Step.Alike.change ?_ .pop
  refine ⟨?_, rfl, h.forgetLabel, rfl⟩
  dsimp only
  split
  · rename_i front
    rw [← String.length_toList]
    exact blanks.add (.of_word (List.isPrefixOf_iff_prefix.1 front) line)
  · exact blanks

end HeredocBody

end PhpFrontEnd
