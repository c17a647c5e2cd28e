import PhpFrontEnd.Proofs.LineEndSteps
import PhpFrontEnd.Proofs.QuotedText

/-!
# Strings over other line ends

A backslash takes the next character along, and of a line end of two characters that is the first
alone. It makes no difference, for the other one closes nothing, interpolates nothing and begins no
escape.

The value of a string has the line ends of the source in it. What is the same over other line ends
is whether the string is a complete literal, and whether an escape in it names no character.
-/

namespace PhpFrontEnd

variable {rules : EscapeRules} {text body source source' letter : List Char} {quote c : Char}
  {interpolates : Bool} {m n : Nat} {a b : Context}

/-! ## Escapes -/

/-- A run of characters that are no line ends is the same, and so is any front part of it. -/
theorem takeWhile_take_crlf {p : Char → Bool} (lineReturn : p '\r' = false)
    (newline : p '\n' = false) (n : Nat) (text : List Char) :
    ((crlf text).take n).takeWhile p = (text.take n).takeWhile p := by
  induction text generalizing n with
  | nil => rfl
  | cons c text ih =>
    cases n with
    | zero => rfl
    | succ n =>
      by_cases own : c = '\n'
      · subst own
        rw [crlf_newline, List.take_succ_cons, List.take_succ_cons, List.takeWhile_cons,
          List.takeWhile_cons, lineReturn, newline]
        rfl
      · rw [crlf_cons own, List.take_succ_cons, List.take_succ_cons, List.takeWhile_cons,
          List.takeWhile_cons, ih]

namespace Escape

/-- A brace in front stays there. -/
theorem closesBrace_crlf (text : List Char) :
    ((crlf text).head? == some '\x7d') = (text.head? == some '\x7d') := by
  induction text using crlf_induction with
  | nil => rfl
  | newline text _ => rfl
  | char c text ne _ =>
    rw [crlf_cons ne]
    rfl

/-- The digits between the braces of an escape, and the brace after them, are on one line. -/
theorem readBraced?_crlf (text : List Char) : readBraced? (crlf text) = readBraced? text := by
  rcases text with _ | ⟨c, text⟩
  · rfl
  by_cases brace : c = '\x7b'
  · subst brace
    have digits : Takes text ((text.take 6).takeWhile (isDigitOf 16)).length
        ((text.take 6).takeWhile (isDigitOf 16)).length := by
      refine .of_line ((List.takeWhile_prefix _).trans (List.take_prefix 6 text)) fun mem => ?_
      cases List.all_eq_true.1 List.all_takeWhile _ mem
    rw [crlf_cons (by decide)]
    simp only [readBraced?, @takeWhile_take_crlf (isDigitOf 16) rfl rfl, digits.drop_eq,
      closesBrace_crlf]
  by_cases newline : c = '\n'
  · subst newline
    rfl
  · simp [crlf_cons newline, readBraced?, brace]

/-- The same escape begins both texts. -/
theorem read?_crlf (rules : EscapeRules) (text : List Char) :
    read? rules (crlf text) = read? rules text := by
  induction text using crlf_induction with
  | nil => rfl
  | newline text _ =>
    rw [crlf_newline, read?_lineEnd (.inl rfl), read?_lineEnd (.inr rfl)]
  | char c text ne _ =>
    rw [crlf_cons ne, read?, read?, ← crlf_cons ne]
    simp only [@takeWhile_take_crlf (isDigitOf 16) rfl rfl,
      @takeWhile_take_crlf (isDigitOf 8) rfl rfl, readBraced?_crlf]

/-- An escape is on one line. -/
theorem takes_of_read? {e : Escape} (h : read? rules text = some (e, n)) : Takes text n n := by
  have onLine {line rest : List Char} (noFeed : '\n' ∉ line) (h : read? rules line = some (e, n)) :
      Takes (line ++ rest) n n := by
    have taken : Takes (line ++ rest) (line.take n).length (line.take n).length :=
      .of_line ((List.take_prefix n line).trans (List.prefix_append line rest))
        fun mem => noFeed (List.mem_of_mem_take mem)
    rwa [List.length_take_of_le (read?_le h)] at taken
  by_cases feed : '\n' ∈ text
  · obtain ⟨line, rest, rfl, noFeed⟩ := List.eq_append_cons_of_mem feed
    rw [read?_append] at h
    exact onLine noFeed h
  · rw [← List.append_nil text]
    exact onLine feed h

end Escape

/-! ## Bodies -/

namespace BodyPiece

/-- The same escapes are in both bodies. -/
theorem any_listAfter_crlf {p : BodyPiece → Bool} (plain : ∀ c, p (.plain c) = false)
    {passed : Nat} (taken : Takes body passed passed) :
    (listAfter rules passed (crlf body)).any p = (listAfter rules passed body).any p := by
  -- a line end comes to two plain pieces in place of one
  have feed (rest : List Char) : listAfter rules 0 ('\r' :: '\n' :: crlf rest) =
      .plain '\r' :: .plain '\n' :: listAfter rules 0 (crlf rest) := by
    rw [listAfter_plain _ (by decide), listAfter_plain _ (by decide)]
  fun_induction listAfter rules passed body with
  | case1 passed =>
    cases taken
    rfl
  | case2 passed c body ih =>
    cases taken with
    | char ne taken =>
      rw [crlf_cons ne]
      exact ih taken
    | newline taken => exact absurd taken.le.1 (by omega)
  | case3 body e length read ih =>
    rw [crlf_cons (by decide), listAfter_backslash, Escape.read?_crlf, read, List.any_cons,
      List.any_cons, ih (Escape.takes_of_read? read)]
  | case4 read => rfl
  | case5 c body read ih =>
    rw [crlf_cons (by decide), listAfter_backslash, Escape.read?_crlf, read]
    by_cases newline : c = '\n'
    · subst newline
      rw [crlf_newline]
      simp only [listAfter_plain _ (show '\n' ≠ '\\' by decide), List.any_cons, plain, ih (.none _)]
      rfl
    · rw [crlf_cons newline]
      simp only [List.any_cons, ih (.none _)]
  | case6 c body notEscape ih =>
    by_cases newline : c = '\n'
    · subst newline
      rw [crlf_newline, feed]
      simp only [List.any_cons, plain, ih (.none _)]
      rfl
    · rw [crlf_cons newline, listAfter_plain _ notEscape, List.any_cons, List.any_cons,
        ih (.none _)]

end BodyPiece

/-- Whether a body names a code point that is no character does not depend on its line ends. -/
theorem invalidCodePoint_crlf (rules : EscapeRules) (body : List Char) :
    (decodeBody rules (crlf body)).invalidCodePoint = (decodeBody rules body).invalidCodePoint := by
  have same {p : BodyPiece → Bool} (plain : ∀ c, p (.plain c) = false) :
      (BodyPiece.list rules (crlf body)).any p = (BodyPiece.list rules body).any p :=
    BodyPiece.any_listAfter_crlf plain (.none body)
  unfold decodeBody
  rw [unescape_eq, unescape_eq, same fun _ => rfl, same fun _ => rfl]
  cases rules.binary || (BodyPiece.list rules body).any BodyPiece.isEscape <;> rfl

/-- What a decoded body is reported for, apart from the source text that is quoted, is one flag. -/
theorem Decoded.variants_eq {decoded decoded' : Decoded}
    (h : decoded'.invalidCodePoint = decoded.invalidCodePoint) (source source' : List Char) :
    (decoded'.errors source').map LexError.variant =
      (decoded.errors source).map LexError.variant := by
  unfold errors
  rw [h]
  cases decoded.invalidCodePoint <;> rfl

/-- Runs of text are alike if they decode with the same success. -/
theorem Step.emitRun_alike (h : a.Alike b) (takes : Takes text source.length source'.length)
    {decoded decoded' : Decoded} (same : decoded'.invalidCodePoint = decoded.invalidCodePoint) :
    (emitRun a source decoded).Alike text (emitRun b source' decoded') :=
  ⟨takes, rfl, h, Decoded.variants_eq same source source'⟩

namespace Quoted

/-! ## Runs of text -/

/-- Quotes that are no line ends, and no letters of bytes. -/
def IsQuote (quote : Char) : Prop := quote ∉ ['\n', '\r', 'b', 'B']

instance (quote : Char) : Decidable (IsQuote quote) :=
  inferInstanceAs (Decidable (quote ∉ ['\n', '\r', 'b', 'B']))

theorem IsQuote.ne (h : IsQuote quote) {d : Char} (mem : d ∈ ['\n', '\r', 'b', 'B']) : d ≠ quote :=
  fun eq => h (eq ▸ mem)

theorem nextIs_quote_crlf (h : IsQuote quote) (text : List Char) :
    nextIs (· == quote) (crlf text) = nextIs (· == quote) text := by
  refine nextIs_crlf ?_ text
  rw [beq_eq_false_iff_ne.2 (h.ne (by decide)), beq_eq_false_iff_ne.2 (h.ne (by decide))]

/-- Without a backslash a run goes on for one character, or ends. -/
theorem runLength_cons (escape : c ≠ '\\') (text : List Char) :
    runLength quote interpolates (c :: text) =
      if c = quote then 0
      else if interpolates && Interpolation.startsAt (c :: text) then 0
      else runLength quote interpolates text + 1 := by
  rw [runLength]
  exact escape

/-- The characters of a line end close no string and interpolate nothing. -/
theorem runLength_lineEnd (h : IsQuote quote) (lineEnd : c = '\n' ∨ c = '\r') (text : List Char) :
    runLength quote interpolates (c :: text) = runLength quote interpolates text + 1 := by
  have escape : c ≠ '\\' := by
    rintro rfl
    revert lineEnd
    decide
  have other : c ≠ quote := by
    rcases lineEnd with rfl | rfl
    · exact h.ne (by decide)
    · exact h.ne (by decide)
  have starts : Interpolation.startsAt (c :: text) = false := by
    rcases lineEnd with rfl | rfl <;> rfl
  rw [runLength_cons escape, if_neg other, starts, Bool.and_false, if_neg Bool.false_ne_true]

/-- A run of text ends at the same place, with all the line ends in it. -/
theorem takes_run (h : IsQuote quote) (interpolates : Bool) (text : List Char) :
    Takes text (runLength quote interpolates text) (runLength quote interpolates (crlf text)) := by
  fun_induction runLength quote interpolates text with
  | case1 => exact .none []
  | case2 => exact .char (by decide) (.none [])
  | case3 c text ih =>
    rw [crlf_cons (by decide)]
    by_cases newline : c = '\n'
    · -- the backslash takes the first half of the line end along
      subst newline
      rw [crlf_newline, runLength, runLength_lineEnd h (.inl rfl)]
      exact ih.newline.char (by decide)
    · rw [crlf_cons newline, runLength]
      exact (ih.char newline).char (by decide)
  | case4 text escape =>
    rw [crlf_cons (h.ne (by decide)).symm, runLength_cons escape, if_pos rfl]
    exact .none _
  | case5 c text escape other starts =>
    rw [← Interpolation.startsAt_crlf] at starts
    have newline : c ≠ '\n' := by
      rintro rfl
      cases (Bool.and_eq_true _ _ ▸ starts).2
    rw [crlf_cons newline] at starts ⊢
    rw [runLength_cons escape, if_neg other, if_pos starts]
    exact .none _
  | case6 c text escape other starts ih =>
    by_cases newline : c = '\n'
    · subst newline
      rw [crlf_newline, runLength_lineEnd h (.inr rfl), runLength_lineEnd h (.inl rfl)]
      exact ih.newline
    · rw [← Interpolation.startsAt_crlf] at starts
      rw [crlf_cons newline] at starts ⊢
      rw [runLength_cons escape, if_neg other, if_neg starts]
      exact ih.char newline

/-! ## Complete literals -/

/-- A string is a complete literal if its first run of text ends at the quote. -/
theorem closingLength?_eq (quote : Char) (interpolates : Bool) (text : List Char) :
    closingLength? quote interpolates text =
      if nextIs (· == quote) (text.drop (runLength quote interpolates text)) then
        some (runLength quote interpolates text + 1)
      else none := by
  fun_induction closingLength? quote interpolates text with
  | case1 => rfl
  | case2 => rfl
  | case3 c text ih =>
    rw [ih, runLength, List.drop_succ_cons, List.drop_succ_cons]
    split <;> rfl
  | case4 text escape => simp [runLength_cons escape, nextIs]
  | case5 c text escape other starts => simp [runLength_cons escape, other, starts, nextIs]
  | case6 c text escape other starts ih =>
    rw [ih, runLength_cons escape, if_neg other, if_neg starts, List.drop_succ_cons]
    split <;> rfl

/-- A literal is closed with either line ends, and at the same place. -/
theorem closingLength?_crlf (h : IsQuote quote) (interpolates : Bool) (text : List Char) :
    Option.Rel (Takes text) (closingLength? quote interpolates text)
      (closingLength? quote interpolates (crlf text)) := by
  have run := takes_run h interpolates text
  have notFeed : ('\n' == quote) = false := beq_eq_false_iff_ne.2 (h.ne (by decide))
  rw [closingLength?_eq, closingLength?_eq, run.drop_eq]
  refine rel_ite (by rw [nextIs_quote_crlf h]) (fun ends => ?_) fun _ => .none
  exact .some (run.add (.next ends notFeed))

/-- A string is closed by its quote. -/
theorem exists_body_of_closingLength? (h : closingLength? quote interpolates text = some n) :
    ∃ body, text.take n = body ++ [quote] := by
  rw [closingLength?_eq] at h
  split at h
  · rename_i ends
    obtain rfl := Option.some.inj h
    rw [List.take_add]
    generalize text.drop (runLength quote interpolates text) = rest at ends
    rcases rest with _ | ⟨c, rest⟩
    · cases ends
    · exact ⟨_, congrArg (_ ++ [·]) (eq_of_beq ends)⟩
  · cases h

/-- A literal is reported alike; its value has the line ends of its body. -/
theorem emitLiteral_alike (settings : Settings) (h : a.Alike b) (quoted : IsQuote quote)
    (isLetter : letter ∈ Quoting.letters) (kind : Quote) (mode : EscapeMode) (body : List Char)
    (takes : Takes text (letter ++ quote :: (body ++ [quote])).length
      (letter ++ quote :: (crlf body ++ [quote])).length) :
    (emitLiteral settings a quote kind mode (letter ++ quote :: (body ++ [quote]))).Alike text
      (emitLiteral settings b quote kind mode (letter ++ quote :: (crlf body ++ [quote]))) := by
  have notLetter : quote ≠ 'b' ∧ quote ≠ 'B' :=
    ⟨(quoted.ne (by decide)).symm, (quoted.ne (by decide)).symm⟩
  unfold emitLiteral
  rw [Quoting.bounds_quoted isLetter notLetter, Quoting.bounds_quoted isLetter notLetter]
  dsimp only
  rw [Quoting.body_quoted, Quoting.body_quoted]
  exact ⟨takes, rfl, h, Decoded.variants_eq (invalidCodePoint_crlf _ body) _ _⟩

/-- A step at an opening quote, by the length of the string if it is a complete literal. -/
def stepBy (settings : Settings) (context : Context) (kind : Quote) (inner : Mode)
    (opening : TokenKind) (text : List Char) (before : Nat) : Option Nat → Step
  | some length => emitLiteral settings context kind.quoting.quote kind kind.quoting.mode
      (text.take (before + 1 + length))
  | none => (Step.emit context opening (before + 1)).push inner

/-- The letter and the quote that begin a literal are on one line. -/
theorem letter_front (isLetter : letter ∈ Quoting.letters) (newline : quote ≠ '\n')
    (text : List Char) :
    Takes (letter ++ quote :: text) (letter.length + 1) (letter.length + 1) ∧
      (letter ++ quote :: text).drop (letter.length + 1) = text ∧
      crlf (letter ++ quote :: text) = letter ++ quote :: crlf text := by
  have inner := crlf_cons newline text
  rcases Quoting.mem_letters isLetter with rfl | rfl | rfl
  · exact ⟨.char newline (.none text), rfl, inner⟩
  · exact ⟨.char (by decide) (.char newline (.none text)), rfl, congrArg ('b' :: ·) inner⟩
  · exact ⟨.char (by decide) (.char newline (.none text)), rfl, congrArg ('B' :: ·) inner⟩

theorem take_letter (letter text : List Char) (quote : Char) (n : Nat) :
    (letter ++ quote :: text).take (letter.length + 1 + n) = letter ++ quote :: text.take n := by
  have front : (letter ++ [quote]).length = letter.length + 1 := List.length_append
  rw [List.append_cons, ← front, List.take_length_add_append, ← List.append_cons]

/-- The two kinds of quotes open a literal or a string in the same way, which is alike. -/
theorem stepBy_crlf (settings : Settings) (h : a.Alike b) (isLetter : letter ∈ Quoting.letters)
    (kind : Quote) (inner : Mode) (opening : TokenKind) (interpolates : Bool) (text : List Char) :
    (stepBy settings a kind inner opening (letter ++ kind.quoting.quote :: text) letter.length
        (closingLength? kind.quoting.quote interpolates text)).Alike
      (letter ++ kind.quoting.quote :: text)
      (stepBy settings b kind inner opening (letter ++ kind.quoting.quote :: crlf text)
        letter.length (closingLength? kind.quoting.quote interpolates (crlf text))) := by
  have quoted : IsQuote kind.quoting.quote := by
    cases kind <;> decide
  have newline : kind.quoting.quote ≠ '\n' := (quoted.ne (by decide)).symm
  obtain ⟨front, rest, whole⟩ := letter_front isLetter newline text
  have closes := closingLength?_crlf quoted interpolates text
  generalize ends : closingLength? kind.quoting.quote interpolates text = end?,
    closingLength? kind.quoting.quote interpolates (crlf text) = end?' at closes ⊢
  cases closes with
  | none => exact ⟨front, rfl, h.push inner, rfl⟩
  | some takes =>
    obtain ⟨body, eq⟩ := exists_body_of_closingLength? ends
    have all := (front.add (rest.symm ▸ takes)).taken
    rw [whole] at all
    unfold stepBy
    dsimp only
    rw [take_letter, take_letter, takes.take_eq, eq] at all ⊢
    rw [crlf_append, crlf_cons newline] at all ⊢
    exact emitLiteral_alike settings h quoted isLetter kind kind.quoting.mode body all

/-- A single quote opens the same. -/
theorem singleStep_crlf (settings : Settings) (h : a.Alike b) (isLetter : letter ∈ Quoting.letters)
    (text : List Char) :
    (singleStep settings a (letter ++ '\x27' :: text) letter.length).Alike
      (letter ++ '\x27' :: text)
      (singleStep settings b (letter ++ '\x27' :: crlf text) letter.length) := by
  have alike := stepBy_crlf settings h isLetter .single .singleQuoted .singleQuote false text
  rcases Quoting.mem_letters isLetter with rfl | rfl | rfl <;> exact alike

/-- A double quote opens the same. -/
theorem doubleStep_crlf (settings : Settings) (h : a.Alike b) (isLetter : letter ∈ Quoting.letters)
    (text : List Char) :
    (doubleStep settings a (letter ++ '"' :: text) letter.length).Alike (letter ++ '"' :: text)
      (doubleStep settings b (letter ++ '"' :: crlf text) letter.length) := by
  have alike := stepBy_crlf settings h isLetter .double .doubleQuoted .doubleQuote true text
  rcases Quoting.mem_letters isLetter with rfl | rfl | rfl <;> exact alike

/-! ## Strings read in pieces -/

theorem run_alike (rules : EscapeRules) (h : a.Alike b) (takes : Takes text m n) :
    (Step.emitRun a (text.take m) (decodeBody rules (text.take m))).Alike text
      (Step.emitRun b ((crlf text).take n) (decodeBody rules ((crlf text).take n))) := by
  refine Step.emitRun_alike h takes.taken ?_
  rw [takes.take_eq]
  exact invalidCodePoint_crlf _ _

/-- In double quotes and backquotes the same is read. -/
theorem interpolatedStep_crlf (settings : Settings) (h : a.Alike b) (quoted : IsQuote quote)
    (kind : TokenKind) (mode : EscapeMode) (text : List Char) :
    (interpolatedStep settings a quote kind mode text).Alike text
      (interpolatedStep settings b quote kind mode (crlf text)) := by
  refine rel_ite (by rw [nextIs_quote_crlf quoted]) (fun ends => ?_) fun _ => ?_
  · exact ⟨.next ends (beq_eq_false_iff_ne.2 (quoted.ne (by decide))), rfl, h.pop, rfl⟩
  refine rel_ite (by rw [Interpolation.startsAt_crlf]) (Interpolation.step_crlf h) fun _ => ?_
  exact run_alike _ h (takes_run quoted true text)

theorem singleQuotedStep_crlf (settings : Settings) (h : a.Alike b) (text : List Char) :
    (singleQuotedStep settings a text).Alike text (singleQuotedStep settings b (crlf text)) := by
  refine rel_ite (by rw [nextIs_quote_crlf (by decide)]) (fun ends => ?_) fun _ => ?_
  · exact ⟨.next ends rfl, rfl, h.pop, rfl⟩
  · exact run_alike _ h (takes_run (by decide) false text)

end Quoted

end PhpFrontEnd
