import PhpFrontEnd.Lexer.Run

/-!
# Line ends of two characters

Lines end in a line feed, or in a carriage return and a line feed. `crlf` makes the second of a
text with the first. What looks at the front of a text sees no difference, unless it tells the two
characters of a line end apart (`nextIs_crlf`, `takeWhile_crlf`).

What is taken from the front is not the same number of characters in both texts. `Takes text m n`
says that the first `m` characters of one become the first `n` of the other. No line end is split
by that, so what is left of both texts is again one text with either line ends (`Takes.drop_eq`),
and the next thing can be taken from there (`Takes.add`).
-/

namespace PhpFrontEnd

/-- A text with a carriage return in front of every line feed. -/
def crlf : List Char → List Char
  | [] => []
  | c :: text => if c = '\n' then '\r' :: '\n' :: crlf text else c :: crlf text

variable {c : Char} {p : Char → Bool} {text front word : List Char} {m n m' n' : Nat}

/-- A line feed gets a carriage return in front. -/
theorem crlf_newline (text : List Char) : crlf ('\n' :: text) = '\r' :: '\n' :: crlf text :=
  if_pos rfl

/-- Any other character stays. -/
theorem crlf_cons (h : c ≠ '\n') (text : List Char) : crlf (c :: text) = c :: crlf text :=
  if_neg h

/-- A text is empty, or begins with a line feed, or with another character. These are the cases in
which `crlf` is known, and those of what is taken from both texts. -/
@[elab_as_elim]
theorem crlf_induction {motive : List Char → Prop} (nil : motive [])
    (newline : ∀ text, motive text → motive ('\n' :: text))
    (char : ∀ c text, c ≠ '\n' → motive text → motive (c :: text)) (text : List Char) :
    motive text := by
  induction text with
  | nil => exact nil
  | cons c text ih =>
    by_cases feed : c = '\n'
    · rw [feed]
      exact newline text ih
    · exact char c text feed ih

theorem crlf_append (front back : List Char) : crlf (front ++ back) = crlf front ++ crlf back := by
  induction front using crlf_induction with
  | nil => rfl
  | newline front ih =>
    rw [List.cons_append, crlf_newline, crlf_newline, ih]
    rfl
  | char c front ne ih => rw [List.cons_append, crlf_cons ne, crlf_cons ne, ih, List.cons_append]

/-- What is on one line is left as it is. -/
theorem crlf_eq_self (h : '\n' ∉ text) : crlf text = text := by
  induction text with
  | nil => rfl
  | cons c text ih =>
    simp only [List.mem_cons, not_or] at h
    rw [crlf_cons (Ne.symm h.1), ih h.2]

theorem isEmpty_crlf (text : List Char) : (crlf text).isEmpty = text.isEmpty := by
  induction text using crlf_induction with
  | nil => rfl
  | newline text _ => rw [crlf_newline, List.isEmpty_cons, List.isEmpty_cons]
  | char c text ne _ => rw [crlf_cons ne, List.isEmpty_cons, List.isEmpty_cons]

/-! ## What is in front of a text -/

/-- The next character has a property in both texts, if the two characters of a line end agree on
it. -/
theorem nextIs_crlf (h : p '\r' = p '\n') (text : List Char) :
    nextIs p (crlf text) = nextIs p text := by
  induction text using crlf_induction with
  | nil => rfl
  | newline text _ =>
    rw [crlf_newline]
    exact h
  | char c text ne _ =>
    rw [crlf_cons ne]
    rfl

theorem exists_cons_of_nextIs (h : nextIs (· == c) text) : ∃ rest, text = c :: rest := by
  rcases text with _ | ⟨d, rest⟩
  · cases h
  · exact ⟨rest, congrArg (· :: rest) (eq_of_beq h)⟩

/-- A run of characters that line ends may be part of has its own line ends changed. -/
theorem takeWhile_crlf (h : p '\r' = p '\n') (text : List Char) :
    (crlf text).takeWhile p = crlf (text.takeWhile p) := by
  induction text using crlf_induction with
  | nil => rfl
  | newline text ih =>
    rw [crlf_newline, List.takeWhile_cons, List.takeWhile_cons, List.takeWhile_cons, h, ih]
    split
    · exact (crlf_newline _).symm
    · rfl
  | char c text ne ih =>
    rw [crlf_cons ne, List.takeWhile_cons, List.takeWhile_cons, ih]
    split
    · exact (crlf_cons ne _).symm
    · rfl

/-- A run that ends with its line is the same. -/
theorem takeWhile_crlf_line (lineReturn : p '\r' = false) (newline : p '\n' = false)
    (text : List Char) : (crlf text).takeWhile p = text.takeWhile p := by
  rw [takeWhile_crlf (lineReturn.trans newline.symm)]
  refine crlf_eq_self fun mem => ?_
  have own := List.all_eq_true.1 List.all_takeWhile _ mem
  rw [newline] at own
  cases own

/-- What is left behind such a run corresponds too. -/
theorem dropWhile_crlf (h : p '\r' = p '\n') (text : List Char) :
    (crlf text).dropWhile p = crlf (text.dropWhile p) := by
  induction text using crlf_induction with
  | nil => rfl
  | newline text ih =>
    rw [crlf_newline, List.dropWhile_cons, List.dropWhile_cons, List.dropWhile_cons, h, ih]
    split
    · rfl
    · exact (crlf_newline _).symm
  | char c text ne ih =>
    rw [crlf_cons ne, List.dropWhile_cons, List.dropWhile_cons, ih]
    split
    · rfl
    · exact (crlf_cons ne _).symm

/-- Texts without the characters of line ends. -/
def OnLine (text : List Char) : Prop := ∀ c ∈ text, c ≠ '\n' ∧ c ≠ '\r'

instance (text : List Char) : Decidable (OnLine text) := List.decidableBAll _ text

/-- Words on one line are in front of both texts or of none. -/
theorem isPrefixOf_crlf (h : OnLine word) (text : List Char) :
    word.isPrefixOf (crlf text) = word.isPrefixOf text := by
  induction word generalizing text with
  | nil => rfl
  | cons w word ih =>
    obtain ⟨own, others⟩ := List.forall_mem_cons.1 h
    induction text using crlf_induction with
    | nil => rfl
    | newline text _ =>
      rw [crlf_newline, List.isPrefixOf, List.isPrefixOf, beq_eq_false_iff_ne.2 own.1,
        beq_eq_false_iff_ne.2 own.2]
      rfl
    | char c text ne _ => rw [crlf_cons ne, List.isPrefixOf, List.isPrefixOf, ih others]

/-- A word without line ends is in front of both texts or of neither. -/
theorem isPrefix_crlf_iff (h : OnLine word) : word <+: crlf text ↔ word <+: text := by
  rw [← List.isPrefixOf_iff_prefix, ← List.isPrefixOf_iff_prefix, isPrefixOf_crlf h]

/-! ## Taking from both texts -/

/-- The first `m` characters of a text become the first `n` of the text with other line ends. -/
inductive Takes : List Char → (m n : Nat) → Prop where
  | none (text : List Char) : Takes text 0 0
  | char {c : Char} {text : List Char} {m n : Nat} (h : c ≠ '\n') (rest : Takes text m n) :
    Takes (c :: text) (m + 1) (n + 1)
  | newline {text : List Char} {m n : Nat} (rest : Takes text m n) :
    Takes ('\n' :: text) (m + 1) (n + 2)

/-- Whether a line starts after the first characters of a text. -/
def lineStartAfter (lineStart : Bool) (text : List Char) : Nat → Bool
  | 0 => lineStart
  | n + 1 => text[n]? == some '\n'

namespace Takes

/-- What is taken corresponds. -/
theorem take_eq (h : Takes text m n) : (crlf text).take n = crlf (text.take m) := by
  induction h with
  | none => rw [List.take_zero, List.take_zero]; rfl
  | char ne rest ih =>
    rw [crlf_cons ne, List.take_succ_cons, List.take_succ_cons, crlf_cons ne, ih]
  | newline rest ih =>
    rw [crlf_newline, List.take_succ_cons, List.take_succ_cons, List.take_succ_cons, crlf_newline,
      ih]

/-- What is left corresponds. -/
theorem drop_eq (h : Takes text m n) : (crlf text).drop n = crlf (text.drop m) := by
  induction h with
  | none => rfl
  | char ne rest ih => rw [crlf_cons ne, List.drop_succ_cons, List.drop_succ_cons, ih]
  | newline rest ih =>
    rw [crlf_newline, List.drop_succ_cons, List.drop_succ_cons, List.drop_succ_cons, ih]

/-- A front part may be taken from both. -/
theorem of_front (h : front <+: text) : Takes text front.length (crlf front).length := by
  obtain ⟨back, rfl⟩ := h
  induction front using crlf_induction with
  | nil => exact .none _
  | newline front ih =>
    rw [crlf_newline]
    exact ih.newline
  | char c front ne ih =>
    rw [crlf_cons ne]
    exact ih.char ne

theorem all (text : List Char) : Takes text text.length (crlf text).length :=
  of_front (List.prefix_refl text)

/-- No less is taken from the text with the longer line ends. -/
theorem le (h : Takes text m n) : m ≤ n ∧ m ≤ text.length := by
  induction h with
  | none => exact ⟨Nat.le_refl _, Nat.zero_le _⟩
  | char | newline => rw [List.length_cons]; omega

theorem eq_zero_iff (h : Takes text m n) : n = 0 ↔ m = 0 := by
  cases h <;> simp

/-- What is taken one after the other may be taken at once. -/
theorem add (h : Takes text m n) (h' : Takes (text.drop m) m' n') :
    Takes text (m + m') (n + n') := by
  induction h with
  | none => simpa using h'
  | char ne rest ih =>
    have later := (ih h').char ne
    rwa [Nat.add_right_comm _ m', Nat.add_right_comm _ n'] at later
  | newline rest ih =>
    have later := (ih h').newline
    rwa [Nat.add_right_comm _ m', Nat.add_right_comm _ n'] at later

theorem congr (h : Takes text m n) (left : m = m') (right : n = n') : Takes text m' n' := by
  subst left right
  exact h

/-- Runs of characters that line ends may be part of are taken from both. -/
theorem takeWhile (h : p '\r' = p '\n') (text : List Char) :
    Takes text (text.takeWhile p).length ((crlf text).takeWhile p).length := by
  rw [takeWhile_crlf h]
  exact of_front (List.takeWhile_prefix p)

/-- A front part without line ends has the same length in both. -/
theorem of_line (h : front <+: text) (line : '\n' ∉ front) :
    Takes text front.length front.length := by
  have same := of_front h
  rwa [crlf_eq_self line] at same

/-- A word is taken with its own length. -/
theorem of_word (h : word <+: text) (line : OnLine word) : Takes text word.length word.length :=
  of_line h fun mem => (line _ mem).1 rfl

/-- Characters that are no line ends are on one line. -/
theorem run (newline : p '\n' = false) (text : List Char) :
    Takes text (text.takeWhile p).length (text.takeWhile p).length :=
  of_line (List.takeWhile_prefix p) fun mem => by
    have own := List.all_eq_true.1 List.all_takeWhile _ mem
    rw [newline] at own
    cases own

/-- A character that is no line end is one in both texts. -/
theorem next (h : nextIs p text) (newline : p '\n' = false) : Takes text 1 1 := by
  rcases text with _ | ⟨c, text⟩
  · cases h
  · refine .char (fun eq => ?_) (.none text)
    rw [eq] at h
    exact Bool.false_ne_true (newline.symm.trans h)

/-- As many characters from one text as from the other are on one line. -/
theorem newline_not_mem (h : Takes text m n) (same : n = m) : '\n' ∉ text.take m := by
  induction h with
  | none => exact List.not_mem_nil
  | char ne rest ih =>
    rw [List.take_succ_cons, List.mem_cons, not_or]
    exact ⟨ne.symm, ih (Nat.succ.inj same)⟩
  | newline rest ih =>
    have := rest.le.1
    omega

/-- If the lengths are the same, so is what is taken. -/
theorem take_eq_self (h : Takes text m m) : (crlf text).take m = text.take m := by
  rw [h.take_eq, crlf_eq_self (h.newline_not_mem rfl)]

/-- The lengths may be those of what is taken. -/
theorem taken (h : Takes text m n) :
    Takes text (text.take m).length ((crlf text).take n).length := by
  rw [h.take_eq]
  exact of_front (List.take_prefix m text)

/-- A line starts after what is taken from one text if it does in the other. -/
theorem lineStart_eq (h : Takes text m n) (lineStart : Bool) :
    lineStartAfter lineStart (crlf text) n = lineStartAfter lineStart text m := by
  induction h generalizing lineStart with
  | none => rfl
  | @char c text m n ne rest ih =>
    rw [crlf_cons ne]
    cases rest with
    | none => rfl
    | char => exact ih lineStart
    | newline => exact ih lineStart
  | @newline text m n rest ih =>
    rw [crlf_newline]
    cases rest with
    | none => rfl
    | char => exact ih lineStart
    | newline => exact ih lineStart

end Takes

/-- Conditions that hold of both texts or of none. -/
theorem rel_ite {α β : Type} {r : α → β → Prop} {p q : Prop} [Decidable p] [Decidable q]
    {a a' : α} {b b' : β} (same : q ↔ p) (yes : p → r a b) (no : ¬p → r a' b') :
    r (if p then a else a') (if q then b else b') := by
  by_cases h : p
  · rw [if_pos h, if_pos (same.2 h)]
    exact yes h
  · rw [if_neg h, if_neg (mt same.1 h)]
    exact no h

/-- Both searches find something or none does. -/
theorem isSome_of_rel {α β : Type} {r : α → β → Prop} {x : Option α} {y : Option β}
    (h : Option.Rel r x y) : y.isSome = x.isSome := by
  cases h <;> rfl

/-- What is found in both texts or in none stays so if something is made of it. -/
theorem rel_map {α β γ δ : Type} {r : α → β → Prop} {r' : γ → δ → Prop} {x : Option α}
    {y : Option β} {f : α → γ} {g : β → δ} (h : Option.Rel r x y)
    (made : ∀ {a b}, r a b → r' (f a) (g b)) :
    Option.Rel r' (x.map f) (y.map g) := by
  cases h with
  | none => exact .none
  | some same => exact .some (made same)

/-- A line end is taken as a whole. -/
theorem lineEndLength?_crlf (noReturn : '\r' ∉ text) :
    Option.Rel (Takes text) (lineEndLength? text) (lineEndLength? (crlf text)) := by
  induction text using crlf_induction with
  | nil => exact .none
  | newline text _ =>
    rw [crlf_newline]
    exact .some (.newline (.none text))
  | char c text ne _ =>
    have other : c ≠ '\r' := fun eq => noReturn (eq ▸ List.mem_cons_self)
    rw [crlf_cons ne, lineEndLength?.eq_4, lineEndLength?.eq_4]
    · exact .none
    all_goals simp [ne, other]

/-! ### Words without regard to case -/

/-- Words that hold no line end in either case. -/
def IsWord (word : List Char) : Prop :=
  ∀ w ∈ word, w.toLower ≠ '\n'.toLower ∧ w.toLower ≠ '\r'.toLower

instance (word : List Char) : Decidable (IsWord word) := List.decidableBAll _ word

theorem startsWithIgnoringCase_cons (w c : Char) (word text : List Char) :
    startsWithIgnoringCase (w :: word) (c :: text) =
      (w.toLower == c.toLower && startsWithIgnoringCase word text) := by
  simp only [startsWithIgnoringCase, List.length_cons, Nat.succ_le_succ_iff, List.zip_cons_cons,
    List.all_cons]
  exact Bool.and_left_comm _ _ _

/-- A word without regard to case is in front of both texts or of neither. -/
theorem startsWithIgnoringCase_crlf (h : IsWord word) (text : List Char) :
    startsWithIgnoringCase word (crlf text) = startsWithIgnoringCase word text := by
  induction word generalizing text with
  | nil => rfl
  | cons w word ih =>
    obtain ⟨own, others⟩ := List.forall_mem_cons.1 h
    induction text using crlf_induction with
    | nil => rfl
    | newline text _ =>
      rw [crlf_newline, startsWithIgnoringCase_cons, startsWithIgnoringCase_cons,
        beq_eq_false_iff_ne.2 own.1, beq_eq_false_iff_ne.2 own.2]
      rfl
    | char c text ne _ =>
      rw [crlf_cons ne, startsWithIgnoringCase_cons, startsWithIgnoringCase_cons, ih others]

/-- A word that a text starts with is on its first line. -/
theorem Takes.of_startsWith (h : IsWord word) (starts : startsWithIgnoringCase word text) :
    Takes text word.length word.length := by
  induction word generalizing text with
  | nil => exact .none text
  | cons w word ih =>
    obtain ⟨own, others⟩ := List.forall_mem_cons.1 h
    rcases text with _ | ⟨c, text⟩
    · cases starts
    rw [startsWithIgnoringCase_cons, Bool.and_eq_true] at starts
    refine (ih others starts.2).char fun newline => own.1 ?_
    rw [eq_of_beq starts.1, newline]

end PhpFrontEnd
