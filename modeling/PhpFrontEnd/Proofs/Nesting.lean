import PhpFrontEnd.Proofs.Tiling

/-!
# Heredocs inside heredocs

An interpolation is code, so the body of a heredoc can contain another heredoc. The modes of both
are kept, the outer one below the inner one, but a lexer has a single place for a label. Opening
the inner heredoc overwrites the label of the outer one, and closing the inner one gives up its
own label and leaves none.

So a heredoc holds its label as long as none was opened inside. One that had another inside is not
closed at all: as soon as the lexer is back in its body it finds no label to look for and goes
over to code. `OpenBody` tells the two kinds apart, and a `Tracked` lexer counts the bodies that
are open along its steps.
-/

namespace PhpFrontEnd

/-! ## Open bodies -/

/-- Modes that belong to a heredoc or nowdoc. -/
def Mode.ofBody (mode : Mode) : Bool := mode.isBody || mode == .closingLabel

/-- How many heredocs and nowdocs are open. -/
def Context.openBodies (context : Context) : Nat :=
  (context.mode :: context.enclosing).countP Mode.ofBody

/-- A heredoc or nowdoc that is open. -/
structure OpenBody where
  /-- the label that it was opened with -/
  label : String
  /-- whether another one was opened inside -/
  nested : Bool
  deriving DecidableEq

/-- The label that is held for a body. -/
def OpenBody.held (body : OpenBody) : Option String :=
  if body.nested then none else some body.label

/-- A lexer and the heredocs and nowdocs that are open, innermost first. -/
structure Tracked where
  lexer : Lexer
  bodies : List OpenBody

namespace Tracked

/-- The next step. The token that begins a heredoc opens a body inside all others; when a mode
of a body is left, the innermost body is. -/
def advance (tracked : Tracked) : Tracked where
  lexer := tracked.lexer.advance
  bodies :=
    match tracked.lexer.step.token with
    | some (.heredocStart, .text (.str label)) =>
      ⟨label, false⟩ :: tracked.bodies.map fun body => { body with nested := true }
    | _ =>
      if tracked.lexer.advance.context.openBodies < tracked.lexer.context.openBodies then
        tracked.bodies.tail
      else tracked.bodies

/-- A number of steps over a source that begins with markup. -/
def run (settings : Settings) (source : List Char) (shift : Nat) : (count : Nat) → Tracked
  | 0 => ⟨.start settings source shift, []⟩
  | count + 1 => (run settings source shift count).advance

end Tracked

/-! ## What moves do to them -/

namespace Context

variable {context after : Context} {kind : TokenKind} {changes : List ModeChange}

theorem openBodies_push (context : Context) (mode : Mode) :
    (context.push mode).openBodies = context.openBodies + if mode.ofBody then 1 else 0 :=
  List.countP_cons

/-- To go back closes a body if the mode belonged to one. -/
theorem openBodies_pop (context : Context) :
    context.pop.openBodies + (if context.mode.ofBody then 1 else 0) = context.openBodies := by
  obtain ⟨mode, enclosing, label, doc⟩ := context
  cases enclosing with
  | nil => simp [openBodies, pop, List.countP_cons, Mode.ofBody, Mode.isBody]
  | cons outer enclosing => simp [openBodies, pop, List.countP_cons]

/-- Tokens apart from those of heredocs neither open nor close a body. -/
theorem Turn.openBodies_eq (turn : context.Turn kind changes after) :
    after.openBodies = context.openBodies := by
  cases turn with
  | stays | unmatched => rfl
  | @enters _ mode enters =>
    have outside : mode.ofBody = context.mode.ofBody := by
      revert enters
      cases context.mode <;> cases kind <;> simp [Mode.enters?] <;> rintro rfl <;> rfl
    simp only [openBodies, enter, List.countP_cons, outside]
  | @opens _ mode doc opens =>
    have outside : mode.ofBody = false := by
      obtain ⟨-, mem⟩ | ⟨-, mem⟩ := Mode.opener opens
      · exact (by decide : ∀ opened ∈ Mode.openedInCode, opened.2.ofBody = false) _ mem
      · exact (by decide : ∀ opened ∈ Mode.openedInString, opened.2.ofBody = false) _ mem
    rw [openBodies_push, outside]
    rfl
  | closes doc closes =>
    have outside : context.mode.ofBody = false := by
      revert closes
      cases context.mode <;> simp [Mode.closes] <;> exact fun _ => rfl
    have := openBodies_pop { context with doc }
    rw [outside] at this
    exact this
  | names mode =>
    have := openBodies_pop context
    rw [mode] at this
    rw [openBodies_push]
    exact this

end Context

namespace Lexer

variable {lexer : Lexer}

/-- What a step does to the bodies that are open and to the label. -/
inductive BodyMove (lexer : Lexer) : Prop where
  | keeps (token : ∀ label, lexer.step.token ≠ some (.heredocStart, .text (.str label)))
    (same : lexer.step.context.openBodies = lexer.context.openBodies)
    (label : lexer.step.context.label = lexer.context.label)
  | opens {label : String} (token : lexer.step.token = some (.heredocStart, .text (.str label)))
    (deeper : lexer.step.context.openBodies = lexer.context.openBodies + 1)
    (held : lexer.step.context.label = some label)
  /-- a body is left by its closing label, or for want of a label -/
  | leaves (lower : lexer.step.context.openBodies + 1 = lexer.context.openBodies)
    (gone : lexer.step.context.label = none)
    (token : (lexer.context.mode = .closingLabel ∧ lexer.step.token =
        some (.heredocEnd, (lexer.context.label.map (.text ∘ .str)).getD .none)) ∨
      (lexer.context.mode.isBody ∧ lexer.context.label = none ∧ lexer.step.token = none))

/-- Other modes are left without a body being closed. -/
theorem BodyMove.keeps_of_pop (apart : lexer.context.mode.ofBody = false)
    (token : lexer.step.token = none) (same : lexer.step.context = lexer.context.pop) :
    lexer.BodyMove := by
  refine .keeps (fun label => ?_) ?_ ?_
  · rw [token]
    exact nofun
  · have popped := Context.openBodies_pop lexer.context
    rw [apart] at popped
    rw [same]
    exact popped
  · rw [same, Context.label_pop]

/-- Every step is one of these. -/
theorem bodyMove (lexer : Lexer) : lexer.BodyMove := by
  by_cases nil : lexer.rest = []
  · have stands : lexer.step.context = lexer.context :=
      congrArg Lexer.context (advance_of_nil nil)
    refine .keeps (fun label => ?_) (by rw [stands]) (by rw [stands])
    rw [step_token_of_rest_eq_nil nil]
    exact nofun
  cases step_move nil with
  | token token pos le turn =>
    refine .keeps (fun label eq => ?_) turn.openBodies_eq turn.label_eq
    rw [token] at eq
    cases eq
    exact turn.kind_ne.1 rfl
  | opensBody code body ne token pos le same =>
    refine .opens token ?_ (by rw [same]; rfl)
    rw [same, Context.openBodies_push, Mode.ofBody, body]
    rfl
  | reachesLabel body held le front indent token same =>
    refine .keeps (fun label eq => ?_) ?_ (by rw [same]; rfl)
    · rcases token with ⟨token, -⟩ | ⟨value, token, -⟩ <;> rw [token] at eq <;> cases eq
    · rw [same]
      simp only [Context.openBodies, Context.enter, List.countP_cons, Mode.ofBody, body]
      rfl
  | closesBody mode token le length same =>
    refine .leaves ?_ (by rw [same]) (.inl ⟨mode, token⟩)
    rw [same, ← Context.openBodies_pop lexer.context, mode]
    rfl
  | leaves free token zero same =>
    rcases free with mode | mode | ⟨body, none⟩
    · exact .keeps_of_pop (by rw [mode]; rfl) token same
    · exact .keeps_of_pop (by rw [mode]; rfl) token same
    · refine .leaves ?_ (by rw [same, Context.label_pop, none]) (.inr ⟨body, none, token⟩)
      have popped := Context.openBodies_pop lexer.context
      rw [Mode.ofBody, body] at popped
      rw [same]
      exact popped
  | looksOn mode token zero same =>
    refine .keeps (fun label eq => ?_) ?_ (by rw [same]; exact Context.label_pop _)
    · rw [token] at eq
      cases eq
    · have popped := Context.openBodies_pop lexer.context
      rw [mode] at popped
      rw [same, Context.openBodies_push]
      exact popped

end Lexer

/-! ## Who holds the label -/

/-- How the label and the modes that a lexer remembers belong to the bodies that are open. -/
structure Tracked.Held (tracked : Tracked) : Prop where
  labelled : tracked.lexer.Labelled
  /-- there is a mode for each body -/
  count : tracked.bodies.length = tracked.lexer.context.openBodies
  /-- the label is that of the innermost body -/
  label : tracked.lexer.context.label = tracked.bodies.head?.bind OpenBody.held
  /-- all others have that one inside -/
  outer : ∀ body ∈ tracked.bodies.tail, body.nested

namespace Tracked

variable {tracked : Tracked}

/-- What is held when the innermost body is left: nothing. -/
theorem Held.label_tail (h : tracked.Held) :
    tracked.bodies.tail.head?.bind OpenBody.held = none := by
  rcases eq : tracked.bodies.tail with _ | ⟨body, bodies⟩
  · rfl
  · have nested := h.outer body (by rw [eq]; exact List.mem_cons_self)
    simp [OpenBody.held, nested]

theorem held_start (settings : Settings) (source : List Char) (shift : Nat) :
    (run settings source shift 0).Held :=
  ⟨Lexer.labelled_start settings source shift nofun, rfl, rfl,
    fun _ mem => absurd mem List.not_mem_nil⟩

/-- A step that opens no body and leaves none keeps the bodies. -/
theorem bodies_advance_of_eq
    (token : ∀ label, tracked.lexer.step.token ≠ some (.heredocStart, .text (.str label)))
    (same : tracked.lexer.advance.context.openBodies = tracked.lexer.context.openBodies) :
    tracked.advance.bodies = tracked.bodies := by
  rw [advance]
  dsimp only
  split
  · rename_i label eq
    exact absurd eq (token label)
  · rw [same, if_neg (Nat.lt_irrefl _)]

/-- A step that leaves a body takes the innermost one away. -/
theorem bodies_advance_of_lt
    (token : ∀ label, tracked.lexer.step.token ≠ some (.heredocStart, .text (.str label)))
    (lt : tracked.lexer.advance.context.openBodies < tracked.lexer.context.openBodies) :
    tracked.advance.bodies = tracked.bodies.tail := by
  rw [advance]
  dsimp only
  split
  · rename_i label eq
    exact absurd eq (token label)
  · rw [if_pos lt]

theorem bodies_advance_of_opens {label : String}
    (token : tracked.lexer.step.token = some (.heredocStart, .text (.str label))) :
    tracked.advance.bodies =
      ⟨label, false⟩ :: tracked.bodies.map fun body => { body with nested := true } := by
  rw [advance, token]

/-- Each step keeps the last label with the innermost body that has one. -/
theorem Held.advance (h : tracked.Held) : tracked.advance.Held := by
  have labelled := h.labelled.advance
  cases tracked.lexer.bodyMove with
  | keeps token same label =>
    have bodies := bodies_advance_of_eq token same
    refine ⟨labelled, ?_, ?_, ?_⟩ <;> rw [bodies]
    · exact h.count.trans same.symm
    · exact label.trans h.label
    · exact h.outer
  | opens token deeper held =>
    -- all bodies that were open have the new one inside
    have bodies := bodies_advance_of_opens token
    refine ⟨labelled, ?_, ?_, ?_⟩ <;> rw [bodies]
    · rw [List.length_cons, List.length_map, h.count]
      exact deeper.symm
    · exact held
    · intro body mem
      obtain ⟨outer, -, rfl⟩ := List.mem_map.1 mem
      rfl
  | leaves lower gone token =>
    have noStart (label : String) :
        tracked.lexer.step.token ≠ some (.heredocStart, .text (.str label)) := by
      rcases token with ⟨-, token⟩ | ⟨-, -, token⟩ <;> rw [token] <;> exact nofun
    have bodies := bodies_advance_of_lt noStart (Nat.lt_of_succ_le (Nat.le_of_eq lower))
    refine ⟨labelled, ?_, ?_, ?_⟩ <;> rw [bodies]
    · rw [List.length_tail, h.count, ← lower]
      rfl
    · rw [h.label_tail]
      exact gone
    · exact fun body mem => h.outer body (List.mem_of_mem_tail mem)

/-- After any number of steps the label is where it was last put. -/
theorem held_run (settings : Settings) (source : List Char) (shift count : Nat) :
    (run settings source shift count).Held := by
  induction count with
  | zero => exact held_start settings source shift
  | succ count ih => exact ih.advance

/-- In a mode of a body there is an innermost body, and its label is held unless it was nested. -/
theorem Held.innermost (h : tracked.Held) (mode : tracked.lexer.context.mode.ofBody) :
    ∃ body outer, tracked.bodies = body :: outer ∧ tracked.lexer.context.label = body.held := by
  have label := h.label
  rcases bodies : tracked.bodies with _ | ⟨body, outer⟩
  · have count := h.count
    rw [bodies, Context.openBodies, List.countP_cons, mode] at count
    simp at count
  · rw [bodies] at label
    exact ⟨body, outer, rfl, label⟩

/-- The innermost body is left by its closing label, or without a token if it was nested. -/
theorem Held.leaves (h : tracked.Held)
    (lt : tracked.advance.lexer.context.openBodies < tracked.lexer.context.openBodies) :
    ∃ body outer, tracked.bodies = body :: outer ∧ tracked.lexer.step.token =
      if body.nested then none else some (.heredocEnd, .text (.str body.label)) := by
  change tracked.lexer.step.context.openBodies < _ at lt
  cases tracked.lexer.bodyMove with
  | keeps token same =>
    rw [same] at lt
    exact absurd lt (Nat.lt_irrefl _)
  | opens token deeper =>
    rw [deeper] at lt
    exact absurd lt (Nat.not_lt_of_le (Nat.le_add_right _ _))
  | leaves lower _ token =>
    rcases token with ⟨mode, token⟩ | ⟨mode, gone, token⟩
    · -- in front of a closing label there is a label, so nothing was nested
      obtain ⟨body, outer, bodies, held⟩ := h.innermost (by rw [mode]; rfl)
      obtain ⟨label, some, -⟩ := h.labelled.front mode
      refine ⟨body, outer, bodies, ?_⟩
      rw [token, some]
      rw [some, OpenBody.held] at held
      split at held
      · cases held
      · rename_i plain
        obtain rfl := Option.some.inj held
        rw [if_neg plain]
        rfl
    · obtain ⟨body, outer, bodies, held⟩ := h.innermost (by rw [Mode.ofBody, mode]; rfl)
      refine ⟨body, outer, bodies, ?_⟩
      rw [gone, OpenBody.held] at held
      split at held
      · rename_i nested
        rw [token, if_pos nested]
      · cases held

/-- Wherever calls for tokens lead, steps lead. -/
theorem exists_run_eq_after (settings : Settings) (source : List Char) (shift calls : Nat) :
    ∃ count, (run settings source shift count).lexer =
      (Lexer.start settings source shift).after calls := by
  refine Lexer.after_of_advance
    (motive := fun lexer => ∃ count, (run settings source shift count).lexer = lexer)
    (fun lexer h => ?_) calls ⟨0, rfl⟩
  obtain ⟨count, rfl⟩ := h
  exact ⟨count + 1, rfl⟩

/-- **A heredoc keeps its label exactly as long as no other one is opened inside.** After any
number of steps the innermost open body is the one that the lexer is in. If nothing was opened
inside, then the lexer holds the label that the body was opened with, and only the token of that
closing label leads out of the body. Otherwise it holds no label and leaves the body at the next
character, without a token. -/
theorem label_held (settings : Settings) (source : List Char) (shift : Nat) :
    (∀ calls, ∃ count, (run settings source shift count).lexer =
      (Lexer.start settings source shift).after calls) ∧
    ∀ count, let tracked := run settings source shift count
      tracked.bodies.length = tracked.lexer.context.openBodies ∧
      (tracked.lexer.context.mode.isBody → ∃ body outer, tracked.bodies = body :: outer ∧
        tracked.lexer.context.label = (if body.nested then none else some body.label) ∧
        (body.nested → tracked.lexer.rest ≠ [] →
          tracked.lexer.step = (Step.silent tracked.lexer.context).pop)) ∧
      (tracked.advance.lexer.context.openBodies < tracked.lexer.context.openBodies →
        ∃ body outer, tracked.bodies = body :: outer ∧ tracked.advance.bodies = outer ∧
          tracked.lexer.step.token =
            if body.nested then none else some (.heredocEnd, .text (.str body.label))) := by
  refine ⟨exists_run_eq_after settings source shift, fun count => ?_⟩
  have held := held_run settings source shift count
  refine ⟨held.count, fun mode => ?_, fun lt => ?_⟩
  · obtain ⟨body, outer, bodies, label⟩ := held.innermost (by rw [Mode.ofBody, mode]; rfl)
    refine ⟨body, outer, bodies, label, fun nested ne => ?_⟩
    rw [OpenBody.held, if_pos nested] at label
    exact Lexer.step_of_label_eq_none ne mode label
  · obtain ⟨body, outer, bodies, token⟩ := held.leaves lt
    refine ⟨body, outer, bodies, ?_, token⟩
    have noStart (label : String) : (run settings source shift count).lexer.step.token ≠
        some (.heredocStart, .text (.str label)) := by
      rw [token]
      split <;> exact nofun
    rw [bodies_advance_of_lt noStart lt, bodies]
    rfl

/-- The body of the outer heredoc is left in the line of its closing label, which it does not
know. -/
theorem label_lost :
    let tracked := run {} "<?php <<<A\n\x7b$x[<<<B\nb\nB\n]\x7d\nA;\n".toList 0 11
    tracked.lexer.context.mode = .heredoc ∧ tracked.bodies = [⟨"A", true⟩] ∧
      tracked.lexer.context.label = none := by
  decide +kernel

end Tracked

end PhpFrontEnd
