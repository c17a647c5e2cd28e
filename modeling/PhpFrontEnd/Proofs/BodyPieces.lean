import PhpFrontEnd.Literal.Escape

/-!
# Bodies in pieces

The body of a literal can be cut into pieces, each a character that stands for itself or an escape
(`BodyPiece.list`), and its value is that of the pieces one after the other. A decoder need not do
it in this way, and does not: it writes nothing before the first escape, and from then on copies
what lies between two escapes as a whole, when it comes to the second of them.

What a decoder has written, together with what it passed and has still to copy, is the value of the
pieces so far. So at the end the value is that of all pieces (`unescape_eq`).
-/

namespace PhpFrontEnd

/-- A part of a body. -/
inductive BodyPiece where
  /-- a character that stands for itself -/
  | plain (c : Char)
  | escape (e : Escape)

namespace BodyPiece

def isEscape : BodyPiece → Bool
  | .escape _ => true
  | .plain _ => false

def isInvalid : BodyPiece → Bool
  | .escape e => e.isInvalid
  | .plain _ => false

def bytes (encoding : Encoding) : BodyPiece → List UInt8
  | .plain c => encoding.encode c
  | .escape e => e.bytes encoding

/-- The pieces that begin after the first `passed` characters, which the piece before has taken. -/
def listAfter (rules : EscapeRules) : (passed : Nat) → List Char → List BodyPiece
  | _, [] => []
  | passed + 1, _ :: rest => listAfter rules passed rest
  | 0, '\\' :: rest =>
    match Escape.read? rules rest with
    | some (e, length) => .escape e :: listAfter rules length rest
    | none =>
      match rest with
      | [] => [.plain '\\']
      | c :: rest => .plain '\\' :: .plain c :: listAfter rules 0 rest
  | 0, c :: rest => .plain c :: listAfter rules 0 rest

/-- The pieces of a body, left to right. -/
def list (rules : EscapeRules) (body : List Char) : List BodyPiece := listAfter rules 0 body

variable {rules : EscapeRules}

/-- What is read at a backslash. -/
theorem listAfter_backslash (rest : List Char) : listAfter rules 0 ('\\' :: rest) =
    match Escape.read? rules rest with
    | some (e, length) => .escape e :: listAfter rules length rest
    | none =>
      match rest with
      | [] => [.plain '\\']
      | c :: rest => .plain '\\' :: .plain c :: listAfter rules 0 rest := by
  rw [listAfter.eq_def rules 0 ('\\' :: rest)]
  rfl

/-- A character other than a backslash is a piece by itself. -/
theorem listAfter_plain {c : Char} (rest : List Char) (h : c ≠ '\\') :
    listAfter rules 0 (c :: rest) = .plain c :: listAfter rules 0 rest := by
  rw [listAfter]
  exact h

/-- Characters before the first backslash are pieces for themselves. -/
theorem listAfter_append_of_not_mem {front : List Char} (h : '\\' ∉ front) (rest : List Char) :
    listAfter rules 0 (front ++ rest) = front.map .plain ++ listAfter rules 0 rest := by
  induction front with
  | nil => rfl
  | cons c front ih =>
    simp only [List.mem_cons, not_or] at h
    rw [List.cons_append, listAfter_plain _ (Ne.symm h.1), ih h.2]
    rfl

/-- Without a backslash each character is a piece for itself. -/
theorem list_of_not_mem {body : List Char} (h : '\\' ∉ body) (rules : EscapeRules) :
    list rules body = body.map .plain := by
  have whole : listAfter rules 0 (body ++ []) = _ := listAfter_append_of_not_mem h []
  rwa [List.append_nil, listAfter, List.append_nil] at whole

/-! ### Characters that stand for themselves -/

theorem any_isEscape_plain (text : List Char) :
    (text.map BodyPiece.plain).any isEscape = false := by
  rw [List.any_map]
  exact List.any_eq_false.2 fun _ _ => Bool.false_ne_true

theorem any_isInvalid_plain (text : List Char) :
    (text.map BodyPiece.plain).any isInvalid = false := by
  rw [List.any_map]
  exact List.any_eq_false.2 fun _ _ => Bool.false_ne_true

theorem bytes_plain (encoding : Encoding) (text : List Char) :
    (text.map BodyPiece.plain).flatMap (·.bytes encoding) = encoding.encodeAll text :=
  List.flatMap_map _ _ text

end BodyPiece

/-! ## What is written of the pieces so far -/

variable {rules : EscapeRules} {encoding : Encoding}

namespace Rewriting

variable {state : Rewriting} {taken : Nat} {text : List Char}

/-- What is written, with the characters that were passed. -/
def soFar (encoding : Encoding) (state : Rewriting) : List UInt8 :=
  (state.written.getD #[]).toList ++ encoding.encodeAll (state.uncopied.take state.passed)

/-- What is written in the end. -/
def whole (encoding : Encoding) (state : Rewriting) : List UInt8 :=
  (state.written.getD #[]).toList ++ encoding.encodeAll state.uncopied

/-- Characters that are passed are written as they are. -/
theorem soFar_pass {front back : List Char}
    (here : state.uncopied.drop state.passed = front ++ back) :
    (state.pass front.length).soFar encoding =
      state.soFar encoding ++ encoding.encodeAll front := by
  have goesOn : state.uncopied.take (state.passed + front.length) =
      state.uncopied.take state.passed ++ front := by
    rw [List.take_add, here, List.take_left]
  rw [soFar, pass, goesOn, Encoding.encodeAll, List.flatMap_append, ← List.append_assoc]
  rfl

theorem drop_pass (front : List Char) {back : List Char}
    (here : state.uncopied.drop state.passed = front ++ back) :
    (state.pass front.length).uncopied.drop (state.pass front.length).passed = back := by
  rw [pass, ← List.drop_drop, here, List.drop_left]

/-- An escape is written as the octets it stands for. -/
theorem soFar_write (e : Escape) (rest : List Char) :
    (state.write encoding e rest).soFar encoding = state.soFar encoding ++ e.bytes encoding := by
  simp [soFar, write, Encoding.encodeAll]

/-- What is still to be copied was all passed when the body ends. -/
theorem whole_eq (here : state.uncopied.drop state.passed = []) :
    state.whole encoding = state.soFar encoding := by
  rw [whole, soFar, List.take_of_length_le (List.drop_eq_nil_iff.1 here)]

/-- A decoder at some place of a body: what it goes on to has the value of the pieces from there,
and is built if one of them is an escape. -/
structure Continues (rules : EscapeRules) (state final : Rewriting) (pieces : List BodyPiece) :
    Prop where
  whole : final.whole rules.encoding =
    state.soFar rules.encoding ++ pieces.flatMap (·.bytes rules.encoding)
  written : final.written.isSome = (state.written.isSome || pieces.any BodyPiece.isEscape)
  invalid : final.invalid = (state.invalid || pieces.any BodyPiece.isInvalid)

/-- Characters that were passed are pieces for themselves. -/
theorem Continues.of_pass {final : Rewriting} (front : List Char) {back : List Char}
    {pieces : List BodyPiece} (here : state.uncopied.drop state.passed = front ++ back)
    (h : Continues rules (state.pass front.length) final pieces) :
    Continues rules state final (front.map .plain ++ pieces) where
  whole := by
    rw [h.whole, soFar_pass here, List.flatMap_append, BodyPiece.bytes_plain, List.append_assoc]
  written := by
    rw [h.written, List.any_append, BodyPiece.any_isEscape_plain]
    rfl
  invalid := by
    rw [h.invalid, List.any_append, BodyPiece.any_isInvalid_plain]
    rfl

/-- What is written of an escape and of the rest is written of the two together. -/
theorem Continues.of_write {final : Rewriting} {e : Escape} {rest : List Char}
    {pieces : List BodyPiece}
    (h : Continues rules (state.write rules.encoding e rest) final pieces) :
    Continues rules state final (.escape e :: pieces) where
  whole := by
    rw [h.whole, soFar_write, List.append_assoc]
    rfl
  written := by
    rw [h.written]
    exact (Bool.or_true _).symm
  invalid := by
    rw [h.invalid]
    exact Bool.or_assoc _ _ _

/-- Nothing more is passed or written once the body ends. -/
theorem Continues.of_end (here : state.uncopied.drop state.passed = []) :
    Continues rules state state [] :=
  ⟨by rw [whole_eq here, List.flatMap_nil, List.append_nil], (Bool.or_false _).symm,
    (Bool.or_false _).symm⟩

/-- **One escape after the other** is written, and before it what was passed is copied. -/
theorem continues_run (taken : Nat) (state : Rewriting) (text : List Char)
    (here : state.uncopied.drop state.passed = text.drop taken) :
    Continues rules state (run rules taken state text) (BodyPiece.listAfter rules taken text) := by
  fun_induction run rules taken state text with
  | case1 taken state =>
    rw [List.drop_nil] at here
    exact .of_end here
  | case2 taken state c rest ih => exact ih here
  | case3 state rest e length read ih =>
    rw [BodyPiece.listAfter_backslash, read]
    exact (ih rfl).of_write
  | case4 state read =>
    -- a backslash at the end of the body
    rw [BodyPiece.listAfter_backslash, read]
    exact .of_pass ['\\'] here (.of_end (drop_pass ['\\'] here))
  | case5 state c rest read ih =>
    rw [BodyPiece.listAfter_backslash, read]
    exact .of_pass ['\\', c] here (ih (drop_pass ['\\', c] here))
  | case6 state c rest plain ih =>
    rw [BodyPiece.listAfter_plain _ plain]
    exact .of_pass [c] here (ih (drop_pass [c] here))

/-- The value of a body is built if it is marked as binary or there is an escape. -/
theorem finish_eq (rules : EscapeRules) (state : Rewriting) : state.finish rules =
    if rules.binary || state.written.isSome then
      .rebuilt (rules.textOf (state.whole rules.encoding)) state.invalid
    else .verbatim := by
  unfold finish
  rcases written : state.written with _ | bytes <;> cases rules.binary <;>
    simp [whole, written]

end Rewriting

/-- There is no backslash before the first. -/
theorem not_mem_take_of_findIdx? {body : List Char} {first : Nat}
    (place : body.findIdx? (· == '\\') = some first) : '\\' ∉ body.take first := by
  obtain ⟨_, -, before⟩ := List.findIdx?_eq_some_iff_getElem.1 place
  intro mem
  obtain ⟨i, less, eq⟩ := List.getElem_of_mem mem
  rw [List.length_take] at less
  rw [List.getElem_take] at eq
  exact before i (by omega) (by simp [eq])

/-- **The value of a body** is that of its pieces. -/
theorem unescape_eq (rules : EscapeRules) (body : List Char) : unescape rules body =
    if rules.binary || (BodyPiece.list rules body).any BodyPiece.isEscape then
      .rebuilt (rules.textOf ((BodyPiece.list rules body).flatMap (·.bytes rules.encoding)))
        ((BodyPiece.list rules body).any BodyPiece.isInvalid)
    else .verbatim := by
  unfold unescape
  rcases place : body.findIdx? (· == '\\') with _ | first
  · -- no backslash, no escape
    have none : '\\' ∉ body := fun mem => by simpa using List.findIdx?_eq_none_iff.1 place _ mem
    rw [BodyPiece.list_of_not_mem none, BodyPiece.bytes_plain, BodyPiece.any_isEscape_plain,
      BodyPiece.any_isInvalid_plain, Bool.or_false]
  · -- the decoder starts at the first
    let start : Rewriting := { uncopied := body, passed := first }
    have continues : Rewriting.Continues rules start _ _ :=
      Rewriting.continues_run 0 start (body.drop first) rfl
    have pieces : BodyPiece.listAfter rules 0 (body.take first ++ body.drop first) = _ :=
      BodyPiece.listAfter_append_of_not_mem (not_mem_take_of_findIdx? place) (body.drop first)
    rw [List.take_append_drop] at pieces
    dsimp only
    rw [Rewriting.finish_eq, continues.whole, continues.written, continues.invalid,
      BodyPiece.list, pieces, List.any_append, List.any_append, List.flatMap_append,
      BodyPiece.any_isEscape_plain, BodyPiece.any_isInvalid_plain, BodyPiece.bytes_plain]
    rfl

end PhpFrontEnd
