import PhpFrontEnd.Proofs.LineEndsInBodies
import PhpFrontEnd.Proofs.RaggedBodies

/-!
# Two searches for a closing label

A nowdoc is searched for its closing label from one line feed to the next. The body of a heredoc is
walked through, because interpolations have to be found on the way: the walk goes from one character
to the next, or over two of them where a backslash takes the next character along
(`HeredocBody.Visits`).

Both find the same label. A backslash takes no line feed along, so the walk comes by the start of
every line (`visits_of_newline`), and there it makes the same test as the search. It can only end
earlier, at an interpolation. Where a walk ends is told once (`HeredocBody.Ends`), by induction
along the walk (`walk_induction`): at the label that the search finds, or before it at an
interpolation, or at the end of the text if there is neither.
-/

namespace PhpFrontEnd

open Heredoc

/-- The search for a closing label goes on after each character; a line starts after a line feed. -/
theorem Heredoc.ClosingLabel.ahead?_step (label : List Char) (c : Char) (rest : List Char) :
    ahead? label (c :: rest) = (find? label (c == '\n') rest).map (·.shift 1) := by
  by_cases feed : c = '\n'
  · subst feed
    exact ahead?_newline rest
  · rw [beq_eq_false_iff_ne.2 feed]
    exact ahead?_cons feed rest

namespace HeredocBody

variable {label text front rest : List Char} {lineStart flag : Bool} {c : Char} {i : Nat}

/-! ## The walk through a body -/

/-- The places of a text that the walk comes by. -/
inductive Visits : List Char → Nat → Prop where
  | here (text : List Char) : Visits text 0
  | escape {c : Char} {rest : List Char} {i : Nat} (taken : isTaken c) (walk : Visits rest i) :
      Visits ('\\' :: c :: rest) (i + 2)
  | pass {c : Char} {rest : List Char} {i : Nat} (single : c = '\\' → nextIs isTaken rest = false)
      (walk : Visits rest i) : Visits (c :: rest) (i + 1)

/-- A text is walked through by escapes and by single characters. -/
@[elab_as_elim]
theorem walk_induction {motive : List Char → Prop} (nil : motive [])
    (escape : ∀ c rest, isTaken c → motive rest → motive ('\\' :: c :: rest))
    (pass : ∀ c rest, (c = '\\' → nextIs isTaken rest = false) → motive rest →
      motive (c :: rest))
    (text : List Char) : motive text := by
  rcases text with _ | ⟨c, rest⟩
  · exact nil
  by_cases single : c = '\\' → nextIs isTaken rest = false
  · exact pass c rest single (walk_induction nil escape pass rest)
  · obtain ⟨rfl, takes⟩ := Classical.not_imp.1 single
    rcases rest with _ | ⟨d, rest⟩
    · exact absurd rfl takes
    · have taken : isTaken d := by simpa [nextIs] using takes
      exact escape d rest taken (walk_induction nil escape pass rest)
termination_by text.length

theorem visits_escape_iff (taken : isTaken c) :
    Visits ('\\' :: c :: rest) i ↔ i = 0 ∨ ∃ j, i = j + 2 ∧ Visits rest j := by
  constructor
  · intro walk
    cases walk with
    | here => exact .inl rfl
    | escape _ walk => exact .inr ⟨_, rfl, walk⟩
    | pass single => exact absurd taken (by simpa [nextIs] using single rfl)
  · rintro (rfl | ⟨j, rfl, walk⟩)
    · exact .here _
    · exact .escape taken walk

theorem visits_pass_iff (single : c = '\\' → nextIs isTaken rest = false) :
    Visits (c :: rest) i ↔ i = 0 ∨ ∃ j, i = j + 1 ∧ Visits rest j := by
  constructor
  · intro walk
    cases walk with
    | here => exact .inl rfl
    | escape taken => exact absurd taken (by simpa [nextIs] using single rfl)
    | pass _ walk => exact .inr ⟨_, rfl, walk⟩
  · rintro (rfl | ⟨j, rfl, walk⟩)
    · exact .here _
    · exact .pass single walk

/-- **No backslash hides the start of a line**: the walk comes by after every line feed. -/
theorem visits_of_newline (h : text[i]? = some '\n') : Visits text (i + 1) := by
  induction text using walk_induction generalizing i with
  | nil => cases h
  | escape c rest taken ih =>
    match i with
    | 0 => cases h
    | 1 =>
      obtain rfl : c = '\n' := by simpa using h
      cases taken
    | i + 2 => exact .escape taken (ih h)
  | pass c rest single ih =>
    match i with
    | 0 => exact .pass single (.here rest)
    | i + 1 => exact .pass single (ih h)

/-- No interpolation begins at a place that the walk comes by before another. -/
def Clear (text : List Char) (n : Nat) : Prop :=
  ∀ i < n, Visits text i → Interpolation.startsAt (text.drop i) = false

theorem clear_zero (text : List Char) : Clear text 0 := nofun

/-! ## Where it ends -/

/-- What is to be said of the place where the walk ends. -/
inductive Ends (label : List Char) (lineStart : Bool) (text : List Char) :
    Nat × FragmentEnd → Prop where
  | label {n indent : Nat} (found : ClosingLabel.find? label lineStart text = some ⟨n, n + indent⟩)
      (clear : Clear text n) : Ends label lineStart text (n, .label indent)
  | interpolation {n : Nat} (walk : Visits text n) (starts : Interpolation.startsAt (text.drop n))
      (clear : Clear text n)
      (later : ∀ found, ClosingLabel.find? label lineStart text = some found →
        n < found.lineStart) : Ends label lineStart text (n, .interpolation)
  | source (none : ClosingLabel.find? label lineStart text = none)
      (clear : Clear text text.length) : Ends label lineStart text (text.length, .source)

/-- One step of a walk. No closing label and no interpolation is in front, so the search goes on
behind the step, too. -/
theorem Ends.after {found : Nat × FragmentEnd}
    (search : ClosingLabel.find? label lineStart (front ++ rest) =
      (ClosingLabel.find? label flag rest).map (·.shift front.length))
    (walk : ∀ i, Visits (front ++ rest) i ↔ i = 0 ∨ ∃ j, i = j + front.length ∧ Visits rest j)
    (starts : Interpolation.startsAt (front ++ rest) = false) (h : Ends label flag rest found) :
    Ends label lineStart (front ++ rest) (passed front.length found) := by
  have drop (n : Nat) : (front ++ rest).drop (n + front.length) = rest.drop n := by
    rw [Nat.add_comm, ← List.drop_drop, List.drop_left]
  have clears {n : Nat} (clear : Clear rest n) : Clear (front ++ rest) (n + front.length) := by
    intro i less visited
    obtain rfl | ⟨j, rfl, inner⟩ := (walk i).1 visited
    · exact starts
    · rw [drop]
      exact clear j (by omega) inner
  cases h with
  | label found clear =>
    refine .label ?_ (clears clear)
    rw [search, found]
    simp [ClosingLabel.shift, Nat.add_right_comm]
  | interpolation visited starts clear later =>
    refine .interpolation ((walk _).2 (.inr ⟨_, rfl, visited⟩)) ?_ (clears clear) ?_
    · rwa [drop]
    · intro found eq
      rw [search] at eq
      obtain ⟨inner, isFound, rfl⟩ := Option.map_eq_some_iff.1 eq
      exact Nat.add_lt_add_right (later inner isFound) _
  | source none clear =>
    have length : (front ++ rest).length = rest.length + front.length := by
      rw [List.length_append, Nat.add_comm]
    have all := clears clear
    rw [← length] at all
    rw [passed, ← length]
    refine .source ?_ all
    rw [search, none]
    rfl

/-- A closing label in front ends the walk and the search. -/
theorem Ends.of_closing {indent : Nat}
    (h : (if lineStart then closingIndent? label text else none) = some indent) :
    Ends label lineStart text (fragment label lineStart text) := by
  cases lineStart with
  | false => cases h
  | true =>
    rw [if_pos rfl] at h
    rw [fragment_of_closing h]
    refine .label ?_ (clear_zero text)
    rw [ClosingLabel.find?, if_pos rfl, ClosingLabel.here?, h, Option.map_some, Nat.zero_add]

/-- Where no closing label is in front the search begins behind the first character. -/
theorem find?_of_not_here (h : (if lineStart then closingIndent? label text else none) = none) :
    ClosingLabel.find? label lineStart text = ClosingLabel.ahead? label text :=
  ClosingLabel.find?_of_none fun start => by rwa [if_pos start] at h

/-- An interpolation in front ends the walk, and a closing label is found later. -/
theorem Ends.of_startsAt (h : (if lineStart then closingIndent? label text else none) = none)
    (starts : Interpolation.startsAt text) :
    Ends label lineStart text (fragment label lineStart text) := by
  rw [fragment_of_starts h starts]
  refine .interpolation (.here text) starts (clear_zero text) ?_
  intro found eq
  rw [find?_of_not_here h] at eq
  rcases text with _ | ⟨c, rest⟩
  · cases starts
  · rw [ClosingLabel.ahead?_step] at eq
    obtain ⟨inner, -, rfl⟩ := Option.map_eq_some_iff.1 eq
    exact Nat.succ_pos _

/-- **Where a walk ends**: at the label that the search finds, or before it at an interpolation, or
at the end of the text. -/
theorem ends_fragment (label : List Char) (lineStart : Bool) (text : List Char) :
    Ends label lineStart text (fragment label lineStart text) := by
  induction text using walk_induction generalizing lineStart with
  | nil =>
    rcases here : (if lineStart then closingIndent? label [] else none) with _ | indent
    · have ended : fragment label lineStart [] = (0, .source) := by
        rw [fragment.eq_def, here]
      rw [ended]
      exact .source (find?_of_not_here here) (clear_zero [])
    · exact .of_closing here
  | escape c rest taken ih =>
    rcases here : (if lineStart then closingIndent? label ('\\' :: c :: rest) else none)
      with _ | indent
    · have apart : c ≠ '\n' ∧ c ≠ '\x00' := by simpa [isTaken] using taken
      have onLine : '\n' ∉ ['\\', c] := by simpa using Ne.symm apart.1
      have search : ClosingLabel.find? label lineStart (['\\', c] ++ rest) =
          (ClosingLabel.find? label false rest).map (·.shift 2) :=
        (find?_of_not_here here).trans (ClosingLabel.ahead?_append onLine rest)
      rw [fragment_escape here apart]
      exact (ih false).after search (fun _ => visits_escape_iff taken) rfl
    · exact .of_closing here
  | pass c rest single ih =>
    rcases here : (if lineStart then closingIndent? label (c :: rest) else none) with _ | indent
    · by_cases starts : Interpolation.startsAt (c :: rest)
      · exact .of_startsAt here starts
      · rw [Bool.not_eq_true] at starts
        have search : ClosingLabel.find? label lineStart ([c] ++ rest) =
            (ClosingLabel.find? label (c == '\n') rest).map (·.shift 1) :=
          (find?_of_not_here here).trans (ClosingLabel.ahead?_step label c rest)
        rw [fragment_passes here starts single]
        exact (ih (c == '\n')).after search (fun _ => visits_pass_iff single) starts
    · exact .of_closing here

/-! ## The two searches -/

/-- The closing label that a fragment ends at. -/
def closing? : Nat × FragmentEnd → Option ClosingLabel
  | (n, .label indent) => some ⟨n, n + indent⟩
  | (_, .interpolation) => none
  | (_, .source) => none

/-- **The two searches agree.** The walk ends at a closing label just if that is the one the search
finds and no interpolation begins where the walk comes by before it. The walk comes by after every
line feed. If the search finds no label the walk ends at an interpolation or with the text. -/
theorem searches_agree (label text : List Char) (lineStart : Bool) :
    (∀ found, closing? (fragment label lineStart text) = some found ↔
      ClosingLabel.find? label lineStart text = some found ∧ Clear text found.lineStart) ∧
    (∀ i, text[i]? = some '\n' → Visits text (i + 1)) ∧
    (ClosingLabel.find? label lineStart text = none →
      fragment label lineStart text = (text.length, .source) ∨
        ∃ n, fragment label lineStart text = (n, .interpolation) ∧ Visits text n ∧
          Interpolation.startsAt (text.drop n)) := by
  have ends := ends_fragment label lineStart text
  generalize fragment label lineStart text = result at ends ⊢
  refine ⟨fun found => ?_, fun i => visits_of_newline, fun none => ?_⟩
  · cases ends with
    | label isFound clear =>
      rw [isFound]
      constructor
      · rintro ⟨⟩
        exact ⟨rfl, clear⟩
      · exact And.left
    | interpolation walk starts clear later =>
      refine iff_of_false nofun ?_
      rintro ⟨isFound, clear⟩
      have free := clear _ (later found isFound) walk
      rw [starts] at free
      cases free
    | source none =>
      rw [none]
      exact iff_of_false nofun fun h => nomatch h.1
  · cases ends with
    | label isFound =>
      rw [none] at isFound
      cases isFound
    | interpolation walk starts => exact .inr ⟨_, rfl, walk, starts⟩
    | source => exact .inl rfl

/-- A backslash before a line feed takes nothing along, and one before a dollar sign does. -/
example : closing? (fragment ['E'] false "\\$a\\\n E;".toList) = some ⟨5, 6⟩ := by cbv

end HeredocBody

end PhpFrontEnd
