import PhpFrontEnd.Lexer.Step
import PhpFrontEnd.Heredoc.Indentation
import PhpFrontEnd.Proofs.BodyPieces
import PhpFrontEnd.Proofs.Encoding

/-!
# What decoding tells apart

Escapes may spell any character, so different bodies can have the same value. But a value still
tells how much indentation its body has: blanks and line feeds are no part of an escape, and a
body that is indented more has more blanks in front of something that is not one, or is longer.

So of the ways to dedent one and the same text, those that differ also differ after decoding.
-/

namespace PhpFrontEnd

variable {rules : EscapeRules}

/-! ## Escapes and line feeds -/

theorem takeWhile_take_append {α : Type} {p : α → Bool} {a : α} (h : p a = false) (n : Nat)
    (front back : List α) :
    ((front ++ a :: back).take n).takeWhile p = (front.take n).takeWhile p := by
  induction front generalizing n with
  | nil => cases n <;> simp [h]
  | cons b front ih =>
    cases n with
    | zero => rfl
    | succ n =>
      rw [List.cons_append, List.take_succ_cons, List.take_succ_cons, List.takeWhile_cons,
        List.takeWhile_cons, ih]

namespace Escape

theorem length_digits_le (p : Char → Bool) (n : Nat) (text : List Char) :
    ((text.take n).takeWhile p).length ≤ text.length :=
  ((List.takeWhile_prefix p).trans (List.take_prefix n text)).length_le

/-- Braces are closed on the same line. -/
theorem readBraced?_append (line rest : List Char) :
    readBraced? (line ++ '\n' :: rest) = readBraced? line := by
  rcases line with _ | ⟨c, line⟩
  · rfl
  by_cases brace : c = '\x7b'
  · subst brace
    have le := length_digits_le (isDigitOf 16) 6 line
    have closed : ((line ++ '\n' :: rest).drop
          ((line.take 6).takeWhile (isDigitOf 16)).length).head? == some '\x7d' ↔
        (line.drop ((line.take 6).takeWhile (isDigitOf 16)).length).head? == some '\x7d' := by
      rw [List.drop_append_of_le_length le]
      rcases line.drop _ with _ | ⟨d, later⟩ <;> simp
    simp only [List.cons_append, readBraced?, @takeWhile_take_append _ (isDigitOf 16) '\n' rfl,
      Bool.and_eq_true, closed]
  · simp [readBraced?, brace]

/-- A line end begins no escape. -/
theorem read?_lineEnd {c : Char} (h : c = '\n' ∨ c = '\r') (rest : List Char) :
    read? rules (c :: rest) = none := by
  have plain : protects rules.mode c = false := by
    rcases h with rfl | rfl <;> cases rules.mode <;> rfl
  have noDigits : ((c :: rest).take 3).takeWhile (isDigitOf 8) = [] := by
    rcases h with rfl | rfl <;> rfl
  have noControl : controls.lookup c = none := by
    rcases h with rfl | rfl <;> rfl
  have noLetter : c ≠ 'x' ∧ c ≠ 'u' := by
    rcases h with rfl | rfl <;> decide
  rw [read?, plain, noDigits, noControl, if_neg Bool.false_ne_true]
  split
  · rfl
  · exact (if_neg noLetter.1).trans (if_neg noLetter.2)

theorem read?_newline (rest : List Char) : read? rules ('\n' :: rest) = none :=
  read?_lineEnd (.inl rfl) rest

/-- An escape is read from its own line. -/
theorem read?_append (line rest : List Char) :
    read? rules (line ++ '\n' :: rest) = read? rules line := by
  rcases line with _ | ⟨c, line⟩
  · exact read?_newline rest
  · rw [List.cons_append, read?, read?, ← List.cons_append]
    simp only [@takeWhile_take_append _ (isDigitOf 16) '\n' rfl,
      @takeWhile_take_append _ (isDigitOf 8) '\n' rfl, readBraced?_append]

theorem readBraced?_le {text : List Char} {e : Escape} {length : Nat}
    (h : readBraced? text = some (e, length)) : length ≤ text.length := by
  unfold readBraced? at h
  split at h
  · rename_i rest
    dsimp only at h
    split at h
    · rename_i closed
      obtain ⟨rfl, rfl⟩ := Prod.mk.inj (Option.some.inj h)
      -- the brace that closes comes after the digits
      rcases after : rest.drop ((rest.take 6).takeWhile (isDigitOf 16)).length with _ | ⟨d, later⟩
      · simp [after] at closed
      · have := congrArg List.length after
        rw [List.length_drop, List.length_cons] at this
        rw [List.length_cons]
        omega
    · cases h
  · cases h

/-- An escape takes no more than there is. -/
theorem read?_le {text : List Char} {e : Escape} {length : Nat}
    (h : read? rules text = some (e, length)) : length ≤ text.length := by
  rcases text with _ | ⟨c, rest⟩
  · cases h
  have one : 1 ≤ (c :: rest).length := Nat.le_add_left 1 _
  rw [read?] at h
  split at h
  · obtain ⟨rfl, rfl⟩ := Prod.mk.inj (Option.some.inj h)
    exact one
  split at h
  · cases h
  split at h
  · obtain ⟨rfl, rfl⟩ := Prod.mk.inj (Option.some.inj h)
    exact one
  split at h
  · dsimp only at h
    split at h
    · cases h
    · obtain ⟨rfl, rfl⟩ := Prod.mk.inj (Option.some.inj h)
      exact Nat.succ_le_succ (length_digits_le _ 2 rest)
  split at h
  · split at h
    · obtain ⟨⟨inner, n⟩, braced, eq⟩ := Option.map_eq_some_iff.1 h
      obtain ⟨rfl, rfl⟩ := Prod.mk.inj eq
      exact Nat.succ_le_succ (readBraced?_le braced)
    · cases h
  · dsimp only at h
    split at h
    · cases h
    · obtain ⟨rfl, rfl⟩ := Prod.mk.inj (Option.some.inj h)
      exact length_digits_le _ 3 (c :: rest)

end Escape

/-! ## Pieces of lines -/

namespace BodyPiece

/-- A body is read line by line. -/
theorem listAfter_append {passed : Nat} {line : List Char} (rest : List Char)
    (h : passed ≤ line.length) : listAfter rules passed (line ++ '\n' :: rest) =
      listAfter rules passed line ++ .plain '\n' :: listAfter rules 0 rest := by
  fun_induction listAfter rules passed line with
  | case1 passed =>
    obtain rfl := Nat.le_zero.1 h
    rfl
  | case2 passed c line ih => exact ih (Nat.le_of_succ_le_succ h)
  | case3 line e length read ih =>
    rw [List.cons_append, listAfter_backslash, Escape.read?_append, read]
    dsimp only
    rw [ih (Escape.read?_le read), List.cons_append]
  | case4 read =>
    rw [List.singleton_append, listAfter_backslash, Escape.read?_newline]
    rfl
  | case5 c line read ih =>
    rw [List.cons_append, listAfter_backslash, Escape.read?_append, read]
    dsimp only [List.cons_append]
    rw [ih (Nat.zero_le _)]
  | case6 c line plain ih =>
    rw [List.cons_append, listAfter_plain _ plain, ih (Nat.zero_le _), List.cons_append]

end BodyPiece

/-- The octets that a body stands for. -/
def EscapeRules.octets (rules : EscapeRules) (body : List Char) : List UInt8 :=
  (BodyPiece.list rules body).flatMap (·.bytes rules.encoding)

namespace EscapeRules

theorem octets_append (line rest : List Char) :
    rules.octets (line ++ '\n' :: rest) = rules.octets line ++ 0x0A :: rules.octets rest := by
  have feed : rules.encoding.encode '\n' = [0x0A] := by
    cases rules.encoding <;> rfl
  rw [octets, BodyPiece.list, BodyPiece.listAfter_append rest (Nat.zero_le _), List.flatMap_append,
    List.flatMap_cons, BodyPiece.bytes, feed]
  rfl

/-- Blanks stand for themselves, each for one octet. -/
theorem octets_indent {blanks : List Char} (body : List Char) (h : ∀ c ∈ blanks, isIndent c) :
    ∃ front, rules.octets (blanks ++ body) = front ++ rules.octets body ∧
      front.length = blanks.length ∧ ∀ b ∈ front, b ≠ 0x0A := by
  induction blanks with
  | nil => exact ⟨[], rfl, rfl, fun _ mem => absurd mem List.not_mem_nil⟩
  | cons c blanks ih =>
    obtain ⟨front, eq, length, notFeed⟩ := ih fun d mem => h d (List.mem_cons_of_mem _ mem)
    have indent := h c List.mem_cons_self
    have plain : c ≠ '\\' := by
      rintro rfl
      cases indent
    obtain ⟨b, encode, ne⟩ : ∃ b, rules.encoding.encode c = [b] ∧ b ≠ 0x0A := by
      have blank : c = ' ' ∨ c = '\t' := by simpa [isIndent] using indent
      rcases blank with rfl | rfl
      · exact ⟨0x20, by cases rules.encoding <;> rfl, by decide⟩
      · exact ⟨0x09, by cases rules.encoding <;> rfl, by decide⟩
    refine ⟨b :: front, ?_, congrArg Nat.succ length, ?_⟩
    · rw [List.cons_append, octets, BodyPiece.list, BodyPiece.listAfter_plain _ plain,
        List.flatMap_cons, BodyPiece.bytes, encode]
      exact congrArg (b :: ·) eq
    · intro d mem
      rcases List.mem_cons.1 mem with rfl | mem
      · exact ne
      · exact notFeed d mem

/-- A body without escapes stands for itself. -/
theorem octets_of_no_escape {passed : Nat} {body : List Char}
    (h : (BodyPiece.listAfter rules passed body).any BodyPiece.isEscape = false) :
    (BodyPiece.listAfter rules passed body).flatMap (·.bytes rules.encoding) =
      rules.encoding.encodeAll (body.drop passed) := by
  fun_induction BodyPiece.listAfter rules passed body with
  | case1 passed => rw [List.drop_nil]; rfl
  | case2 passed c body ih => exact ih h
  | case3 body e length read ih => cases h
  | case4 read => rfl
  | case5 c body read ih =>
    rw [List.flatMap_cons, List.flatMap_cons, ih h]
    rfl
  | case6 c body plain ih =>
    rw [List.flatMap_cons, ih h]
    rfl

/-- The value of a body tells the octets that it stands for. -/
theorem octets_eq_of_decodeBody (binary : rules.binary = false) {a b : List Char}
    (h : (decodeBody rules a).text = (decodeBody rules b).text) :
    rules.octets a = rules.octets b := by
  -- as text the value is written as the octets, otherwise it is the octets
  have told (body : List Char) :
      (∃ chars, (decodeBody rules body).text = .ofChars chars ∧
        rules.encoding.encodeAll chars = rules.octets body) ∨
      (decodeBody rules body).text = .bytes (rules.octets body) := by
    simp only [decodeBody, unescape_eq, binary, Bool.false_or, textOf]
    cases escapes : (BodyPiece.list rules body).any BodyPiece.isEscape with
    | false => exact .inl ⟨body, rfl, (octets_of_no_escape escapes).symm⟩
    | true =>
      rcases decoded : rules.encoding.decode? (rules.octets body) with _ | chars
      · right
        rw [octets] at decoded
        simp [decoded, octets]
      · left
        refine ⟨chars, ?_, Encoding.encodeAll_of_decode? decoded⟩
        rw [octets] at decoded
        simp [decoded]
  rcases told a with ⟨chars, text, eq⟩ | text <;> rcases told b with ⟨chars', text', eq'⟩ | text'
  · rw [text, text'] at h
    have same : chars = chars' := String.ofList_injective (Text.str.inj h)
    rw [← eq, ← eq', same]
  · rw [text, text'] at h
    cases h
  · rw [text, text'] at h
    cases h
  · rw [text, text'] at h
    exact Text.bytes.inj h

end EscapeRules

/-! ## Dedented lines -/

/-- Of two lists that end alike up to a mark, neither has something more in front. -/
theorem append_append_cons_ne {α : Type} {mark : α} {front : List α} (ne : front ≠ [])
    (notMark : ∀ a ∈ front, a ≠ mark) (line a b : List α) :
    front ++ line ++ mark :: a ≠ line ++ mark :: b := by
  induction line generalizing front with
  | nil =>
    obtain ⟨first, front, rfl⟩ := List.exists_cons_of_ne_nil ne
    intro eq
    rw [List.append_nil] at eq
    exact notMark first List.mem_cons_self (List.cons.inj eq).1
  | cons c line ih =>
    obtain ⟨first, front, rfl⟩ := List.exists_cons_of_ne_nil ne
    intro eq
    -- the first of the front moves to its end
    obtain ⟨rfl, eq⟩ := List.cons.inj eq
    refine @ih (front ++ [first]) (by simp) (fun a mem => ?_) ?_
    · rcases List.mem_append.1 mem with mem | mem
      · exact notMark a (List.mem_cons_of_mem _ mem)
      · exact notMark a (List.mem_cons.2 (.inl (List.mem_singleton.1 mem)))
    · simpa using eq

namespace Heredoc

variable {width left : Nat} {line : List Char}

theorem dedentFrom_append (rest : List Char) (h : '\n' ∉ line) :
    dedentFrom width left (line ++ '\n' :: rest) =
      dedentFrom width left line ++ '\n' :: dedentFrom width width rest := by
  induction line generalizing left with
  | nil => simp [dedentFrom, isIndent]
  | cons c line ih =>
    simp only [List.mem_cons, not_or] at h
    rw [List.cons_append, dedentFrom, dedentFrom]
    split
    · exact ih h.2
    · rw [ih h.2, List.cons_append]

/-- Within a line nothing is removed. -/
theorem dedentFrom_zero (h : '\n' ∉ line) : dedentFrom width 0 line = line := by
  induction line with
  | nil => rfl
  | cons c line ih =>
    simp only [List.mem_cons, not_or] at h
    rw [dedentFrom, if_neg (fun blank => Nat.lt_irrefl 0 blank.1), if_neg (Ne.symm h.1), ih h.2]

/-- A line loses some of its blanks. -/
theorem dedentFrom_line (width left : Nat) (h : '\n' ∉ line) :
    ∃ blanks, line = blanks ++ dedentFrom width left line ∧ ∀ c ∈ blanks, isIndent c := by
  induction line generalizing left with
  | nil => exact ⟨[], rfl, fun _ mem => absurd mem List.not_mem_nil⟩
  | cons c line ih =>
    simp only [List.mem_cons, not_or] at h
    rw [dedentFrom]
    split
    · rename_i blank
      obtain ⟨blanks, eq, all⟩ := ih (left - 1) h.2
      refine ⟨c :: blanks, congrArg (c :: ·) eq, fun d mem => ?_⟩
      rcases List.mem_cons.1 mem with rfl | mem
      · exact blank.2
      · exact all d mem
    · rw [if_neg (Ne.symm h.1), dedentFrom_zero h.2]
      exact ⟨[], rfl, fun _ mem => absurd mem List.not_mem_nil⟩

/-- Of two ways to dedent a line one leaves some more blanks. -/
theorem dedentFrom_blanks (width left width' left' : Nat) (h : '\n' ∉ line) :
    ∃ blanks, (∀ c ∈ blanks, isIndent c) ∧
      (dedentFrom width left line = blanks ++ dedentFrom width' left' line ∨
        dedentFrom width' left' line = blanks ++ dedentFrom width left line) := by
  obtain ⟨removed, eq, all⟩ := dedentFrom_line width left h
  obtain ⟨removed', eq', all'⟩ := dedentFrom_line width' left' h
  rcases List.append_eq_append_iff.1 (eq.symm.trans eq') with
    ⟨blanks, rfl, more⟩ | ⟨blanks, rfl, more⟩
  · exact ⟨blanks, fun c mem => all' c (List.mem_append_right _ mem), .inl more⟩
  · exact ⟨blanks, fun c mem => all c (List.mem_append_right _ mem), .inr more⟩

end Heredoc

/-! ## Decoded lines -/

namespace EscapeRules

variable {blanks body : List Char}

/-- Blanks in front of the last line make it longer. -/
theorem blanks_eq_nil (h : ∀ c ∈ blanks, isIndent c)
    (eq : rules.octets (blanks ++ body) = rules.octets body) : blanks = [] := by
  obtain ⟨front, split, length, -⟩ := octets_indent body h
  rw [split] at eq
  have := congrArg List.length eq
  rw [List.length_append, length] at this
  exact List.length_eq_zero_iff.1 (by omega)

/-- Blanks in front of another line put its end off. -/
theorem blanks_eq_nil_of_line {a b : List UInt8} (h : ∀ c ∈ blanks, isIndent c)
    (eq : rules.octets (blanks ++ body) ++ 0x0A :: a = rules.octets body ++ 0x0A :: b) :
    blanks = [] := by
  obtain ⟨front, split, length, notFeed⟩ := octets_indent body h
  rw [split] at eq
  by_cases nil : front = []
  · rw [nil] at length
    exact List.length_eq_zero_iff.1 length.symm
  · exact absurd eq (append_append_cons_ne nil notFeed _ _ _)

/-- **Decoding tells dedented texts apart.** Two ways to dedent one text that decode to the same
octets are the same. -/
theorem dedentFrom_eq_of_octets {width left width' left' : Nat} {text : List Char}
    (h : rules.octets (Heredoc.dedentFrom width left text) =
      rules.octets (Heredoc.dedentFrom width' left' text)) :
    Heredoc.dedentFrom width left text = Heredoc.dedentFrom width' left' text := by
  by_cases newline : '\n' ∈ text
  · obtain ⟨line, rest, rfl, notMem⟩ := List.eq_append_cons_of_mem newline
    obtain ⟨blanks, indent, more⟩ := Heredoc.dedentFrom_blanks width left width' left' notMem
    rw [Heredoc.dedentFrom_append rest notMem, Heredoc.dedentFrom_append rest notMem] at h ⊢
    rw [octets_append, octets_append] at h
    have same : Heredoc.dedentFrom width left line = Heredoc.dedentFrom width' left' line := by
      rcases more with more | more
      · rw [more] at h ⊢
        rw [blanks_eq_nil_of_line indent h, List.nil_append]
      · rw [more] at h ⊢
        rw [blanks_eq_nil_of_line indent h.symm, List.nil_append]
    rw [same] at h ⊢
    have later := (List.cons.inj (List.append_cancel_left h)).2
    rw [dedentFrom_eq_of_octets later]
  · obtain ⟨blanks, indent, more⟩ := Heredoc.dedentFrom_blanks width left width' left' newline
    rcases more with more | more
    · rw [more] at h ⊢
      rw [blanks_eq_nil indent h, List.nil_append]
    · rw [more] at h ⊢
      rw [blanks_eq_nil indent h.symm, List.nil_append]
termination_by text.length
decreasing_by
  subst_vars
  simp only [List.length_append, List.length_cons]
  omega

end EscapeRules

end PhpFrontEnd
