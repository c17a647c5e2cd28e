import PhpFrontEnd.Proofs.Move
import PhpFrontEnd.Proofs.Scan

/-!
# Resuming a lexer

A lexer can be made anew wherever another has stopped, from the context and the offset it stopped
with. Of all that a lexer holds only one thing is lost on the way: whether a line starts there.
The new lexer takes it for granted.

Nothing but the bodies of heredocs and nowdocs asks for that. Outside of all bodies the new lexer
therefore goes on like the old one, call by call, up to the next character at the latest: what is
taken from the source tells both of them where lines start. `Lexer.Agree` is the relation that the
two remain in.
-/

namespace PhpFrontEnd

/-! ## Outside of bodies -/

/-- No heredoc or nowdoc is open. -/
def Context.OutsideBodies (context : Context) : Prop :=
  ∀ mode ∈ context.mode :: context.enclosing, ¬mode.isBody

instance (context : Context) : Decidable context.OutsideBodies :=
  inferInstanceAs (Decidable (∀ mode ∈ context.mode :: context.enclosing, ¬mode.isBody))

/-- To go back to an enclosing mode does not lead into a body. -/
theorem Context.OutsideBodies.pop {context : Context} (h : context.OutsideBodies) :
    context.pop.OutsideBodies := by
  intro mode mem
  rcases List.mem_cons.1 mem with rfl | mem
  · rcases context.mode_pop with code | mem
    · rw [code]
      exact nofun
    · exact h _ (List.mem_cons_of_mem _ mem)
  · rw [enclosing_pop] at mem
    exact h mode (List.mem_cons_of_mem _ (List.mem_of_mem_tail mem))

namespace Lexer

variable {lexer a b : Lexer}

/-- A step that takes no character opens no body. -/
theorem outsideBodies_advance (h : lexer.context.OutsideBodies) (zero : lexer.step.length = 0) :
    lexer.advance.context.OutsideBodies := by
  by_cases nil : lexer.rest = []
  · rwa [advance_of_nil nil]
  change lexer.step.context.OutsideBodies
  cases step_move nil with
  | token token pos => exact absurd zero (Nat.ne_of_gt pos)
  | opensBody code body ne token pos => exact absurd zero (Nat.ne_of_gt pos)
  | reachesLabel body => exact absurd body (h _ List.mem_cons_self)
  | closesBody mode token le length same =>
    rw [same]
    exact h.pop
  | leaves free token zero same =>
    rw [same]
    exact h.pop
  | looksOn mode token zero same =>
    rw [same]
    intro mode mem
    rcases List.mem_cons.1 mem with rfl | mem
    · exact nofun
    · exact h.pop mode mem

/-- Whether a line starts at the next character matters in bodies only. -/
theorem step_lineStart (lineStart : Bool) (h : ¬lexer.context.mode.isBody) :
    { lexer with lineStart }.step = lexer.step := by
  by_cases nil : lexer.rest = []
  · have other : { lexer with lineStart }.rest = [] := nil
    rw [step_of_rest_eq_nil other, step_of_rest_eq_nil nil]
  have other : { lexer with lineStart }.rest ≠ [] := nil
  rw [step_eq other, step_eq nil]
  dsimp only
  cases mode : lexer.context.mode with
  | heredoc | nowdoc =>
    rw [mode] at h
    exact absurd rfl h
  | _ => rfl

/-! ## Agreement -/

/-- Two lexers at the same place that know the same, except that outside of bodies they need not
know whether a line starts there. -/
inductive Agree : Lexer → Lexer → Prop where
  | same (lexer : Lexer) : Agree lexer lexer
  | outside {lexer : Lexer} (lineStart : Bool) (h : lexer.context.OutsideBodies) :
    Agree lexer { lexer with lineStart }

namespace Agree

theorem context_eq (h : Agree a b) : b.context = a.context := by
  cases h <;> rfl

/-- Lexers that agree make the same step. -/
theorem step_eq (h : Agree a b) : b.step = a.step := by
  cases h with
  | same => rfl
  | outside lineStart h => exact step_lineStart lineStart (h _ List.mem_cons_self)

theorem found_eq (h : Agree a b) : b.found = a.found := by
  rw [found, found, span, span, h.step_eq]
  cases h <;> rfl

theorem span_eq (h : Agree a b) : b.span = a.span := by
  rw [span, span, h.step_eq]
  cases h <;> rfl

theorem rest_eq (h : Agree a b) : b.rest = a.rest := by
  cases h <;> rfl

theorem offset_eq (h : Agree a b) : b.offset = a.offset := by
  cases h <;> rfl

/-- They agree after it: a step into a body takes characters, and these tell where lines start. -/
theorem advance (h : Agree a b) : Agree a.advance b.advance := by
  have step := h.step_eq
  cases h with
  | same => exact .same _
  | outside lineStart h =>
    have inside := outsideBodies_advance h
    rw [Lexer.advance, Lexer.advance, step]
    rw [Lexer.advance] at inside
    rcases length : a.step.length with _ | n
    · rw [length] at inside
      exact .outside lineStart (inside rfl)
    · -- the last character taken tells both whether a line starts after it
      exact .same _

/-- Lexers that agree find the same up to the next token and agree after it. -/
theorem next (h : Agree a b) : b.next.token = a.next.token ∧
    b.next.diagnostics = a.next.diagnostics ∧ b.next.shared = a.next.shared ∧
    Agree a.next.lexer b.next.lexer := by
  induction a using step_induction generalizing b with
  | nil a nil =>
    have token := step_token_of_rest_eq_nil nil
    rw [next_of_token token, next_of_token (h.step_eq ▸ token), h.span_eq, h.found_eq, h.step_eq]
    exact ⟨rfl, rfl, rfl, h.advance⟩
  | step a ne ih =>
    rcases token : a.step.token with _ | ⟨kind, value⟩
    · obtain ⟨same, diagnostics, shared, agree⟩ := ih h.advance
      rw [next_of_silent token, next_of_silent (h.step_eq ▸ token), h.found_eq, h.step_eq]
      exact ⟨same, by rw [diagnostics], by rw [shared], agree⟩
    · rw [next_of_token token, next_of_token (h.step_eq ▸ token), h.span_eq, h.found_eq, h.step_eq]
      exact ⟨rfl, rfl, rfl, h.advance⟩

/-- They agree after any number of calls. -/
theorem after (h : Agree a b) (count : Nat) : Agree (a.after count) (b.after count) := by
  induction count generalizing a b with
  | zero => exact h
  | succ count ih => exact ih h.next.2.2.2

/-- Lexers that agree have the same scan. -/
theorem scan (h : Agree a b) : b.scan.tokens = a.scan.tokens ∧
    b.scan.diagnostics = a.scan.diagnostics ∧ b.scan.shared = a.scan.shared ∧
    Agree a.scan.lexer b.scan.lexer := by
  induction a using step_induction generalizing b with
  | nil a nil =>
    have nil' : b.rest = [] := h.rest_eq.trans nil
    rw [scan_of_nil nil, scan_of_nil nil', h.offset_eq]
    exact ⟨rfl, rfl, rfl, h⟩
  | step a ne ih =>
    obtain ⟨tokens, diagnostics, shared, agree⟩ := ih h.advance
    rcases token : a.step.token with _ | ⟨kind, value⟩
    · rw [scan_of_silent token, scan_of_silent (h.step_eq ▸ token), h.found_eq, h.step_eq]
      exact ⟨tokens, by rw [diagnostics], by rw [shared], agree⟩
    · have notEnd := (step_move ne).ne_endOfSource token
      rw [scan_of_token token notEnd, scan_of_token (h.step_eq ▸ token) notEnd, h.found_eq,
        h.step_eq, h.span_eq]
      exact ⟨by rw [tokens], by rw [diagnostics], by rw [shared], agree⟩

end Agree

/-! ## The place of a lexer in its source -/

/-- A lexer over what is left of a source that begins at an offset. -/
structure Within (settings : Settings) (source : List Char) (shift : Nat) (lexer : Lexer) :
    Prop where
  settings_eq : lexer.settings = settings
  shift_le : shift ≤ lexer.offset
  rest_eq : lexer.rest = source.drop (lexer.offset - shift)

variable {settings : Settings} {source : List Char} {shift : Nat}

/-- A lexer at the beginning has all of the source in front of it. -/
theorem within_start (context : Context) :
    (start settings source shift context).Within settings source shift := by
  refine ⟨rfl, Nat.le_refl _, ?_⟩
  change source = source.drop (shift - shift)
  rw [Nat.sub_self, List.drop_zero]

/-- Each step takes from the front what it adds to the offset. -/
theorem Within.advance (h : lexer.Within settings source shift) :
    lexer.advance.Within settings source shift := by
  obtain ⟨settings_eq, shift_le, rest_eq⟩ := h
  refine ⟨settings_eq, Nat.le_add_right_of_le shift_le, ?_⟩
  change lexer.rest.drop _ = source.drop (lexer.offset + _ - shift)
  rw [rest_eq, List.drop_drop, Nat.sub_add_comm shift_le]

/-- So what is in front after any number of calls is told by the offset. -/
theorem within_after (context : Context) (count : Nat) :
    ((start settings source shift context).after count).Within settings source shift :=
  after_of_advance (motive := Within settings source shift) (fun _ h => h.advance) count
    (within_start context)

/-! ## Resuming -/

/-- The lexer made anew where another one stopped, over what is left of a source that begins at an
offset. Of the other lexer it is given the offset and the context. -/
def resume (settings : Settings) (source : List Char) (shift : Nat) (stopped : Lexer) : Lexer :=
  start settings (source.drop (stopped.offset - shift)) stopped.offset stopped.context

/-- A resumed lexer may take for the start of a line what is none, and is right in all else. -/
theorem Within.resume_eq (h : lexer.Within settings source shift) :
    resume settings source shift lexer = { lexer with lineStart := true } := by
  rw [resume, ← h.rest_eq, ← h.settings_eq]
  rfl

/-- A lexer that goes on like another: in a scan to the end, and call by call. -/
structure GoesOnLike (resumed stopped : Lexer) : Prop where
  tokens : resumed.scan.tokens = stopped.scan.tokens
  diagnostics : resumed.scan.diagnostics = stopped.scan.diagnostics
  context : resumed.scan.lexer.context = stopped.scan.lexer.context
  calls : ∀ count, (resumed.after count).next.token = (stopped.after count).next.token ∧
    (resumed.after count).next.diagnostics = (stopped.after count).next.diagnostics ∧
    (resumed.after count).context = (stopped.after count).context ∧
    (resumed.after count).offset = (stopped.after count).offset

/-- Lexers that agree cannot be told apart by their calls. -/
theorem Agree.goesOnLike (h : Agree a b) : b.GoesOnLike a := by
  obtain ⟨tokens, diagnostics, -, ends⟩ := h.scan
  refine ⟨tokens, diagnostics, ends.context_eq, fun count => ?_⟩
  have later := h.after count
  obtain ⟨token, diagnostics, -⟩ := later.next
  exact ⟨token, diagnostics, later.context_eq, later.offset_eq⟩

/-- Outside of bodies, resuming is the same as not stopping, after any number of tokens. -/
theorem resume_goesOnLike (settings : Settings) (source : List Char) (shift : Nat)
    (context : Context) (count : Nat)
    (h : ((start settings source shift context).after count).context.OutsideBodies) :
    (resume settings source shift ((start settings source shift context).after count)).GoesOnLike
      ((start settings source shift context).after count) := by
  rw [(within_after context count).resume_eq]
  exact (Agree.outside true h).goesOnLike

/-- Stopped at the index of an array element inside a string. -/
theorem resume_goesOnLike_offset :
    ((start {} "<?php \"$a[0]\";".toList 5).after 3).context.OutsideBodies ∧
    GoesOnLike
      (resume {} "<?php \"$a[0]\";".toList 5 ((start {} "<?php \"$a[0]\";".toList 5).after 3))
      ((start {} "<?php \"$a[0]\";".toList 5).after 3) := by
  have outside : ((start {} "<?php \"$a[0]\";".toList 5).after 3).context.OutsideBodies := by
    rw [after_succ_of_token rfl, after_succ_of_token rfl, after_succ_of_token rfl]
    decide
  exact ⟨outside, resume_goesOnLike {} _ 5 {} 3 outside⟩

end Lexer

end PhpFrontEnd
