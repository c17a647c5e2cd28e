import PhpFrontEnd.Lexer.Code
import PhpFrontEnd.Proofs.LineEndSteps

/-!
# Comments, names and operators over other line ends

In code a line end is a blank like others, except where it ends something: a comment of one line
or a closing tag, and both take it whole. Names, casts and operators have none in them, so they are
the same in both texts; only the blanks of a `yield from` may hold some.
-/

namespace PhpFrontEnd

variable {a b : Context} {text rest : List Char} {m n : Nat} {c : Char}

namespace Code

/-! ## Comments and tags -/

/-- Inside its line a comment ends only at a closing tag. -/
theorem lineCommentLength_cons (newline : c ≠ '\n') (lineReturn : c ≠ '\r') (rest : List Char) :
    lineCommentLength (c :: rest) =
      if c == '?' && nextIs (· == '>') rest then 0 else lineCommentLength rest + 1 := by
  rw [lineCommentLength]
  · exact newline
  · exact lineReturn

/-- A comment of one line takes the line end along, whichever it is. -/
theorem takes_lineComment (noReturn : '\r' ∉ text) :
    Takes text (lineCommentLength text) (lineCommentLength (crlf text)) := by
  induction text using crlf_induction with
  | nil => exact .none []
  | newline text ih =>
    rw [crlf_newline]
    exact .newline (.none text)
  | char c text ne ih =>
    simp only [List.mem_cons, not_or] at noReturn
    rw [crlf_cons ne, lineCommentLength_cons ne (Ne.symm noReturn.1),
      lineCommentLength_cons ne (Ne.symm noReturn.1), nextIs_crlf rfl]
    exact rel_ite Iff.rfl (fun _ => .none _) fun _ => (ih noReturn.2).char ne

/-- A block comment ends at the same two characters, or in neither text. -/
theorem blockCommentLength?_crlf (text : List Char) :
    Option.Rel (Takes text) (blockCommentLength? text) (blockCommentLength? (crlf text)) := by
  induction text using crlf_induction with
  | nil => exact .none
  | newline text ih =>
    change Option.Rel _ _ (((blockCommentLength? (crlf text)).map _).map _)
    rw [Option.map_map]
    exact rel_map ih .newline
  | char c text ne ih =>
    rw [crlf_cons ne, blockCommentLength?, blockCommentLength?, nextIs_crlf rfl]
    refine rel_ite Iff.rfl (fun ends => ?_) fun _ => rel_map ih (.char ne)
    exact .some (.char ne (.next (Bool.and_eq_true _ _ ▸ ends).2 rfl))

/-- A line end is a blank, so it makes a documentation comment just as well. -/
theorem isDocComment_crlf (rest : List Char) :
    isDocComment (crlf ('/' :: '*' :: rest)) = isDocComment ('/' :: '*' :: rest) := by
  rw [crlf_cons (by decide), crlf_cons (by decide)]
  change (nextIs (· == '*') (crlf rest) && nextIs isBlank ((crlf rest).drop 1)) =
    (nextIs (· == '*') rest && nextIs isBlank (rest.drop 1))
  induction rest using crlf_induction with
  | nil => rfl
  | newline rest _ => rfl
  | char c rest ne _ =>
    rw [crlf_cons ne]
    exact congrArg ((c == '*') && ·) (nextIs_crlf rfl rest)

theorem blockCommentStep_crlf (h : a.Alike b) (start start' : Nat) (rest : List Char) :
    (blockCommentStep a start ('/' :: '*' :: rest)).Alike ('/' :: '*' :: rest)
      (blockCommentStep b start' (crlf ('/' :: '*' :: rest))) := by
  have ends := blockCommentLength?_crlf rest
  have takes {m n : Nat} (h : Takes rest m n) : Takes ('/' :: '*' :: rest) (m + 2) (n + 2) :=
    (h.char (by decide)).char (by decide)
  unfold blockCommentStep
  rw [isDocComment_crlf, show (crlf ('/' :: '*' :: rest)).drop 2 = crlf rest from rfl,
    show ('/' :: '*' :: rest).drop 2 = rest from rfl]
  generalize blockCommentLength? rest = end?, blockCommentLength? (crlf rest) = end?' at ends
  cases ends with
  | none =>
    cases isDocComment ('/' :: '*' :: rest) with
    | true => exact ⟨.all _, rfl, h.withDoc _ _, rfl⟩
    | false => exact ⟨.all _, rfl, h, rfl⟩
  | some same =>
    have taken := (takes same).taken
    cases isDocComment ('/' :: '*' :: rest) with
    | true => exact ⟨taken, rfl, h.withDoc _ _, rfl⟩
    | false => exact ⟨taken, rfl, h, rfl⟩

/-- A closing tag takes the line end after it along, whichever it is. -/
theorem takes_closeTag (noReturn : '\r' ∉ rest) :
    Takes ('?' :: '>' :: rest) (closeTagLength ('?' :: '>' :: rest))
      (closeTagLength (crlf ('?' :: '>' :: rest))) := by
  have lineEnd := lineEndLength?_crlf noReturn
  unfold closeTagLength
  rw [show (crlf ('?' :: '>' :: rest)).drop 2 = crlf rest from rfl,
    show ('?' :: '>' :: rest).drop 2 = rest from rfl, Nat.add_comm 2, Nat.add_comm 2]
  generalize lineEndLength? rest = end?, lineEndLength? (crlf rest) = end?' at lineEnd
  cases lineEnd with
  | none => exact .char (by decide) (.char (by decide) (.none _))
  | some takes => exact .char (by decide) (.char (by decide) takes)

/-! ## Names -/

/-- There are blanks in front of one text just if there are in front of the other. -/
theorem length_blanks_pos_crlf (text : List Char) :
    0 < ((crlf text).takeWhile isBlank).length ↔ 0 < (text.takeWhile isBlank).length := by
  rw [takeWhile_crlf rfl, List.length_pos_iff, List.length_pos_iff, ne_eq, ne_eq,
    ← List.isEmpty_iff, isEmpty_crlf, List.isEmpty_iff]

/-- The blanks of a `yield from` may have line ends in them, and so take more of the second text. -/
theorem fromLength?_crlf (text : List Char) :
    Option.Rel (Takes text) (fromLength? text) (fromLength? (crlf text)) := by
  have blanks := @Takes.takeWhile isBlank rfl text
  unfold fromLength?
  dsimp only
  rw [blanks.drop_eq, startsWithIgnoringCase_crlf (by decide)]
  by_cases word : startsWithIgnoringCase ['f', 'r', 'o', 'm']
      (text.drop (text.takeWhile isBlank).length)
  · have taken : Takes _ 4 4 := .of_startsWith (by decide) word
    rw [taken.drop_eq, nextIs_crlf rfl]
    exact rel_ite (and_congr (length_blanks_pos_crlf text) Iff.rfl)
      (fun _ => .some (blanks.add taken)) fun _ => .none
  · rw [if_neg fun all => word all.2.1, if_neg fun all => word all.2.1]
    exact .none

/-- A name is the same in both texts, and so is the keyword that it is. -/
theorem nameStep_crlf (h : a.Alike b) (text : List Char) :
    (nameStep a text).Alike text (nameStep b (crlf text)) := by
  have name := @Takes.run isLabelPart rfl text
  unfold nameStep
  rw [@takeWhile_crlf_line isLabelPart rfl rfl]
  dsimp only
  rw [name.drop_eq]
  split
  · exact ⟨name, rfl, h, rfl⟩
  · have later := fromLength?_crlf (text.drop (text.takeWhile isLabelPart).length)
    generalize fromLength? (text.drop (text.takeWhile isLabelPart).length) = from?,
      fromLength? (crlf (text.drop (text.takeWhile isLabelPart).length)) = from?' at later
    cases later with
    | none => exact ⟨name, rfl, h, rfl⟩
    | some takes => exact ⟨(name.add takes).taken, rfl, h, rfl⟩
  · exact ⟨name, rfl, h, rfl⟩

/-! ## Casts and operators -/

/-- What is in front of a cast's closing parenthesis is on one line. -/
theorem takes_castName (rest : List Char) :
    let before := (rest.takeWhile isIndent).length
    let name := ((rest.drop before).takeWhile Char.isAlpha).length
    let after := (((rest.drop before).drop name).takeWhile isIndent).length
    Takes rest before before ∧ Takes (rest.drop before) name name ∧
      Takes ((rest.drop before).drop name) after after :=
  ⟨.run rfl _, .run rfl _, .run rfl _⟩

/-- A cast has no line end in it, so both texts have the same one. -/
theorem castAt?_crlf (rest : List Char) : castAt? (crlf ('(' :: rest)) = castAt? ('(' :: rest) := by
  obtain ⟨before, name, after⟩ := takes_castName rest
  rw [crlf_cons (by decide)]
  simp only [castAt?, Nat.add_comm 1, List.drop_succ_cons, List.drop_zero,
    @takeWhile_crlf_line isIndent rfl rfl, @takeWhile_crlf_line Char.isAlpha rfl rfl,
    before.drop_eq, name.drop_eq, after.drop_eq, @nextIs_crlf (· == ')') rfl]

theorem takes_cast {type : CastType} {length : Nat}
    (h : castAt? ('(' :: rest) = some (type, length)) : Takes ('(' :: rest) length length := by
  obtain ⟨before, name, after⟩ := takes_castName rest
  simp only [castAt?, Nat.add_comm 1, List.drop_succ_cons, List.drop_zero] at h
  split at h
  · rename_i closes
    obtain ⟨type, -, eq⟩ := Option.map_eq_some_iff.1 h
    have all := before.add (name.add (after.add (.next closes rfl)))
    simp only [← Nat.add_assoc] at all
    rw [← (Prod.mk.inj eq).2]
    exact all.char (by decide)
  · cases h

end Code

/-- No operator has a line end in it, so both texts have the same one in front. -/
theorem Mark.at?_crlf (text : List Char) : Mark.at? (crlf text) = Mark.at? text := by
  have plain : ∀ entry ∈ spellings, OnLine entry.1.toList := by decide
  unfold Mark.at?
  generalize spellings = table at plain
  induction table with
  | nil => rfl
  | cons entry table ih =>
    obtain ⟨own, others⟩ := List.forall_mem_cons.1 plain
    rw [List.findSome?_cons, List.findSome?_cons, ih others]
    dsimp only
    rw [isPrefixOf_crlf own]

theorem Mark.takes {length : Nat} {mark : Mark} (h : Mark.at? text = some (length, mark)) :
    Takes text length length := by
  have plain : ∀ entry ∈ spellings, OnLine entry.1.toList := by decide
  obtain ⟨⟨spelling, found⟩, mem, h⟩ := List.exists_of_findSome?_eq_some h
  dsimp only at h
  split at h
  · rename_i fits
    simp only [Option.some.injEq, Prod.mk.injEq] at h
    rw [← h.1, ← String.length_toList]
    exact .of_word (List.isPrefixOf_iff_prefix.1 fits) (plain _ mem)
  · cases h

namespace Code

/-- Operators do the same after steps that do the same, for the modes around are the same. -/
theorem afterMark_alike {step other : Step} (h : step.Alike text other) (mark : Mark) :
    (afterMark step mark).Alike text (afterMark other mark) := by
  have dropped : step.dropDoc.Alike text other.dropDoc :=
    ⟨h.takes, h.kind, h.context.dropDoc, h.variants⟩
  unfold afterMark
  split
  · exact dropped.change _
  · exact rel_ite (by rw [dropped.context.enclosing]) (fun _ => dropped) fun _ => dropped.change _
  · exact dropped
  · exact h.change _
  · exact h.change _
  · exact h

/-- A character that begins no operator is bad in both texts. -/
theorem markStep_crlf (h : a.Alike b) (newline : c ≠ '\n') (rest : List Char) :
    (markStep a (c :: rest)).Alike (c :: rest) (markStep b (crlf (c :: rest))) := by
  unfold markStep
  rw [Mark.at?_crlf]
  split
  · rename_i length mark found
    have emitted : (Step.emit a (.mark mark) length).Alike (c :: rest)
        (Step.emit b (.mark mark) length) :=
      ⟨Mark.takes found, rfl, h, rfl⟩
    exact afterMark_alike emitted mark
  · rw [crlf_cons newline]
    exact ⟨.char newline (.none _), rfl, h, rfl⟩

end Code

end PhpFrontEnd
