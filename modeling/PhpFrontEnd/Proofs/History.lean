import Mathlib.Logic.Function.Iterate
import PhpFrontEnd.Proofs.Tiling

/-!
# What can be done with a lexer

A lexer is made over a source, asked for tokens, and given a context that some lexer had, in any
order. Context and source then need not belong together: a lexer may be told to close a heredoc
that its source knows nothing of. A `History` says what has been done.

Whatever it was, the next call for a token returns after a few steps, stays within the source and
gets on (`History.next_progress`). A single kind of call takes no character: where a closing label
is due and none is there, an empty token ends the heredoc, and the mode is left. Two facts about
contexts carry this, and no use of a lexer breaks them (`Context.Sound`): a label that is held is
not empty, and a closing label is never due in an enclosing mode.
-/

namespace PhpFrontEnd

/-! ## Sound contexts -/

/-- A context that some lexer can have. -/
structure Context.Sound (context : Context) : Prop where
  named : context.Named
  /-- no closing label is left for later -/
  enclosing : .closingLabel ∉ context.enclosing

/-- Each move keeps a sound context sound. -/
theorem Step.Move.sound {context : Context} {text : List Char} {step : Step}
    (h : step.Move context text) (sound : context.Sound) : step.context.Sound := by
  refine ⟨h.named sound.named, ?_⟩
  have enclosing := sound.enclosing
  cases h with
  | token token pos le turn => exact (turn.closingLabel_not_mem enclosing).1
  | opensBody code body ne token pos le same =>
    rw [same, Context.enclosing_push, List.mem_cons, not_or]
    exact ⟨by rw [code]; exact nofun, enclosing⟩
  | reachesLabel body held le front indent token same =>
    rw [same]
    exact enclosing
  | closesBody mode token le length same =>
    rw [same]
    exact (Context.closingLabel_not_mem_pop enclosing).1
  | leaves free token zero same =>
    rw [same]
    exact (Context.closingLabel_not_mem_pop enclosing).1
  | looksOn mode token zero same =>
    rw [same]
    exact Context.closingLabel_not_mem_pop_push enclosing

theorem Mode.weight_of_isBody {mode : Mode} (h : mode.isBody) : mode.weight = 4 := by
  cases mode <;> first | rfl | cases h

theorem Context.weight_le (context : Context) :
    context.weight ≤ 2 * context.enclosing.length + 4 :=
  Nat.add_le_add_left context.mode.weight_le _

/-- A step without a token leaves a mode for good. -/
theorem Step.Move.weight_lt {context : Context} {text : List Char} {step : Step}
    (h : step.Move context text) (silent : step.token = none) :
    step.context.weight < context.weight := by
  cases h with
  | token token | opensBody _ _ _ token | closesBody _ token =>
    rw [token] at silent
    cases silent
  | reachesLabel body held le front indent token same =>
    rw [same, Context.weight, Context.weight, Mode.weight_of_isBody body]
    exact Nat.lt_succ_self _
  | leaves free token zero same =>
    rw [same]
    refine Context.weight_pop_lt ?_
    rcases free with mode | mode | ⟨body, -⟩
    · rw [mode]
      decide
    · rw [mode]
      decide
    · rw [Mode.weight_of_isBody body]
      decide
  | looksOn mode token zero same =>
    rw [same, Context.weight, Context.weight, Context.enclosing_push, Context.enclosing_pop, mode]
    simp only [Context.push, Mode.weight, List.length_cons, List.length_tail]
    omega

namespace Lexer

variable {lexer : Lexer}

/-! ## Within the source -/

/-- The offset at which the source ends. -/
def stop (lexer : Lexer) : Nat := lexer.offset + lexer.rest.length

/-- A step takes no more than there is. -/
theorem step_length_le (lexer : Lexer) : lexer.step.length ≤ lexer.rest.length := by
  by_cases nil : lexer.rest = []
  · obtain ⟨settings, rest, offset, lineStart, context⟩ := lexer
    cases nil
    exact Nat.le_refl _
  cases step_move nil with
  | token token pos le => exact le
  | opensBody code body ne token pos le => exact le
  | reachesLabel body held le => exact le
  | closesBody mode token le => exact le
  | leaves free token zero => exact zero ▸ Nat.zero_le _
  | looksOn mode token zero => exact zero ▸ Nat.zero_le _

/-- A step moves on in the source, but not its end. -/
theorem stop_advance (lexer : Lexer) : lexer.advance.stop = lexer.stop := by
  have le := lexer.step_length_le
  simp only [stop, advance, take, List.length_drop]
  omega

theorem stop_next (lexer : Lexer) : lexer.next.lexer.stop = lexer.stop :=
  next_of_advance (motive := fun later => later.stop = lexer.stop)
    (fun later h => later.stop_advance.trans h) rfl

/-- A token ends where the lexer goes on. -/
theorem next_span_stop (lexer : Lexer) :
    lexer.next.token.span.start + lexer.next.token.span.length = lexer.next.lexer.offset := by
  induction lexer using step_induction with
  | nil lexer nil =>
    rw [next_of_token (step_token_of_rest_eq_nil nil)]
    rfl
  | step lexer ne ih =>
    rcases token : lexer.step.token with _ | ⟨kind, value⟩
    · rw [next_of_silent token]
      exact ih
    · rw [next_of_token token]
      rfl

/-! ## A call returns -/

/-- The next token is made by one step, after others that make none. -/
structure Returns (lexer : Lexer) (silent : Nat) : Prop where
  before : ∀ i < silent, (advance^[i] lexer).step.token = none
  made : (advance^[silent] lexer).step.token =
    some (lexer.next.token.kind, lexer.next.token.value)
  place : lexer.next.token.span = (advance^[silent] lexer).span
  after : lexer.next.lexer = advance^[silent + 1] lexer

/-- A call returns at once if the step makes a token. -/
theorem returns_of_token {kind : TokenKind} {value : TokenValue}
    (token : lexer.step.token = some (kind, value)) : lexer.Returns 0 := by
  have eq := next_of_token token
  refine ⟨fun i lt => absurd lt (Nat.not_lt_zero i), ?_, ?_, ?_⟩
  · rw [eq]
    exact token
  · rw [eq]
    rfl
  · rw [eq]
    rfl

/-- A call goes on after a silent step, and that is one more. -/
theorem Returns.of_silent {silent : Nat} (h : lexer.advance.Returns silent)
    (token : lexer.step.token = none) : lexer.Returns (silent + 1) := by
  have eq := next_of_silent token
  refine ⟨fun i lt => ?_, ?_, ?_, ?_⟩
  · rcases i with _ | i
    · exact token
    · exact h.before i (Nat.lt_of_succ_lt_succ lt)
  · rw [eq]
    exact h.made
  · rw [eq]
    exact h.place
  · rw [eq]
    exact h.after

/-- A call returns after no more steps than there are modes to leave. -/
theorem exists_returns (lexer : Lexer) : ∃ silent ≤ lexer.context.weight, lexer.Returns silent := by
  induction lexer using step_induction with
  | nil lexer nil => exact ⟨0, Nat.zero_le _, returns_of_token (step_token_of_rest_eq_nil nil)⟩
  | step lexer ne ih =>
    rcases token : lexer.step.token with _ | ⟨kind, value⟩
    · obtain ⟨silent, le, returns⟩ := ih
      exact ⟨silent + 1, Nat.lt_of_le_of_lt le ((step_move ne).weight_lt token),
        returns.of_silent token⟩
    · exact ⟨0, Nat.zero_le _, returns_of_token token⟩

/-! ## A call gets on -/

/-- A silent step that leads to a closing label stands in front of it. -/
theorem labelled_of_silent (sound : lexer.context.Sound) (ne : lexer.rest ≠ [])
    (silent : lexer.step.token = none) (closing : lexer.advance.context.mode = .closingLabel) :
    lexer.advance.Labelled := by
  have later := (step_move ne).sound sound
  refine ⟨later.named, later.enclosing, fun _ => ?_⟩
  change lexer.step.context.mode = .closingLabel at closing
  cases step_move ne with
  | token token | opensBody _ _ _ token | closesBody _ token =>
    rw [token] at silent
    cases silent
  | @reachesLabel label body held le front indent token same =>
    refine ⟨label, ?_, front, indent⟩
    change lexer.step.context.label = some label
    rw [same]
    exact held
  | leaves free token zero same =>
    rw [same] at closing
    exact absurd closing (Context.closingLabel_not_mem_pop sound.enclosing).2
  | looksOn mode token zero same =>
    rw [same] at closing
    cases closing

/-- A call that makes a token takes characters, unless it finds no closing label where one is due.
Then it leaves the mode that waits for it. -/
theorem next_advances (sound : lexer.context.Sound)
    (notEnd : lexer.next.token.kind ≠ .endOfSource) :
    lexer.offset < lexer.next.lexer.offset ∨
      lexer.next.token.kind = .heredocEnd ∧ lexer.context.mode = .closingLabel ∧
        lexer.next.lexer.context.mode ≠ .closingLabel := by
  induction lexer using step_induction with
  | nil lexer nil =>
    rw [next_of_token (step_token_of_rest_eq_nil nil)] at notEnd
    exact absurd rfl notEnd
  | step lexer ne ih =>
    have move := step_move ne
    rcases token : lexer.step.token with _ | ⟨kind, value⟩
    · have eq := next_of_silent token
      rw [eq] at notEnd ⊢
      rcases ih (move.sound sound) notEnd with lt | ⟨-, closing, -⟩
      · exact .inl (Nat.lt_of_le_of_lt (Nat.le_add_right _ _) lt)
      · -- a closing label that is reached on the way is there and is taken
        obtain ⟨-, pos, value, ends⟩ := (labelled_of_silent sound ne token closing).closes closing
        left
        rw [next_of_token ends]
        exact Nat.lt_of_le_of_lt (Nat.le_add_right _ _) (Nat.lt_add_of_pos_right pos)
    · rw [next_of_token token]
      have gets_on (pos : 0 < lexer.step.length) : lexer.offset < lexer.advance.offset :=
        Nat.lt_add_of_pos_right pos
      cases move with
      | token _ pos | opensBody _ _ _ _ pos => exact .inl (gets_on pos)
      | reachesLabel _ _ _ _ _ made =>
        rcases made with ⟨none, -⟩ | ⟨_, -, pos⟩
        · rw [none] at token
          cases token
        · exact .inl (gets_on pos)
      | closesBody mode made le length same =>
        rw [made] at token
        obtain ⟨rfl, rfl⟩ := Prod.mk.inj (Option.some.inj token)
        refine .inr ⟨rfl, mode, ?_⟩
        change lexer.step.context.mode ≠ .closingLabel
        rw [same]
        exact (Context.closingLabel_not_mem_pop sound.enclosing).2
      | leaves _ none | looksOn _ none =>
        rw [none] at token
        cases token

/-- The heredoc that is to be closed here is one of another source. -/
example :
    (start {} "x".toList 0 { mode := .closingLabel, label := some "E" }).step =
      { length := 0
        token := some (.heredocEnd, .text (.str "E"))
        context := { mode := .code }
        changes := [.pop] } :=
  rfl

/-! ## The end -/

/-- Once all is read, nothing changes any more. -/
theorem next_of_nil (h : lexer.rest = []) :
    lexer.next.token = ⟨.endOfSource, ⟨lexer.stop, 0⟩, .none⟩ ∧ lexer.next.lexer = lexer := by
  have place : lexer.span = ⟨lexer.stop, 0⟩ := by
    obtain ⟨settings, rest, offset, lineStart, context⟩ := lexer
    cases h
    rfl
  rw [next_of_token (step_token_of_rest_eq_nil h), place, advance_of_nil h]
  exact ⟨rfl, rfl⟩

/-- At the end of the source calls change nothing. -/
theorem after_of_nil (h : lexer.rest = []) (count : Nat) : lexer.after count = lexer := by
  induction count with
  | zero => rfl
  | succ count ih =>
    rw [after, (next_of_nil h).2]
    exact ih

/-- The end token stands at the end, and says that all is read. -/
theorem next_end (h : lexer.next.token.kind = .endOfSource) :
    lexer.next.token = ⟨.endOfSource, ⟨lexer.stop, 0⟩, .none⟩ ∧ lexer.next.lexer.rest = [] := by
  induction lexer using step_induction with
  | nil lexer nil =>
    obtain ⟨token, same⟩ := next_of_nil nil
    exact ⟨token, by rw [same]; exact nil⟩
  | step lexer ne ih =>
    rcases token : lexer.step.token with _ | ⟨kind, value⟩
    · rw [next_of_silent token] at h ⊢
      rw [← lexer.stop_advance]
      exact ih h
    · rw [next_of_token token] at h
      exact absurd h ((step_move ne).ne_endOfSource token)

/-- After the end token every call makes that token again and remembers the same. -/
theorem next_after_end (h : lexer.next.token.kind = .endOfSource) (count : Nat) :
    (lexer.next.lexer.after count).next.token = lexer.next.token ∧
      (lexer.next.lexer.after count).context = lexer.next.lexer.context := by
  obtain ⟨token, nil⟩ := next_end h
  rw [after_of_nil nil, (next_of_nil nil).1, stop_next, token]
  exact ⟨rfl, rfl⟩

/-! ## All calls -/

/-- What holds of a call for the end token, and of one for another token if it does after it,
holds always. -/
theorem call_induction {motive : Lexer → Prop}
    (ended : ∀ lexer, lexer.next.token.kind = .endOfSource → motive lexer)
    (call : ∀ lexer, lexer.next.token.kind ≠ .endOfSource → motive lexer.next.lexer →
      motive lexer) (lexer : Lexer) : motive lexer := by
  by_cases h : lexer.next.token.kind = .endOfSource
  · exact ended lexer h
  · exact call lexer h (call_induction ended call lexer.next.lexer)
termination_by lexer.work
decreasing_by exact work_next_lt h

/-- The tokens of one call after the other, the last of which is the end token. -/
structure CallsUpToEnd (lexer : Lexer) (count : Nat) : Prop where
  tokens : lexer.scan.tokens =
    (List.range (count + 1)).map fun i => (lexer.after i).next.token
  before : ∀ i < count, (lexer.after i).next.token.kind ≠ .endOfSource
  last : (lexer.after count).next.token.kind = .endOfSource

/-- A scan ends. -/
theorem exists_callsUpToEnd (lexer : Lexer) : ∃ count, lexer.CallsUpToEnd count := by
  induction lexer using call_induction with
  | ended lexer h =>
    refine ⟨0, ?_, fun i lt => absurd lt (Nat.not_lt_zero i), h⟩
    rw [scan_of_next_end h]
    rfl
  | call lexer h ih =>
    obtain ⟨count, tokens, before, last⟩ := ih
    refine ⟨count + 1, ?_, fun i lt => ?_, last⟩
    · rw [scan_of_next h, List.range_succ_eq_map, List.map_cons, List.map_map, tokens]
      rfl
    · rcases i with _ | i
      · exact h
      · exact before i (Nat.lt_of_succ_lt_succ lt)

end Lexer

/-! ## Histories -/

/-- What has been done with a lexer. -/
inductive History where
  /-- it was made over a source, which begins in some mode -/
  | start (settings : Settings) (source : List Char) (shift : Nat) (mode : Mode)
  /-- it was asked for a token -/
  | next (before : History)
  /-- it was given the context of a lexer with another history -/
  | restore (before other : History)
  /-- the pending documentation comment was taken from it -/
  | takeDoc (before : History)

namespace History

/-- The lexer at the end of a history. -/
def lexer : History → Lexer
  | start settings source shift mode => .start settings source shift { mode }
  | next before => before.lexer.next.lexer
  | restore before other => { before.lexer with context := other.lexer.context }
  | takeDoc before => { before.lexer with context := before.lexer.context.dropDoc }

/-- The offset at which the source of a lexer ends. -/
def stop : History → Nat
  | start _ source shift _ => shift + source.length
  | next before | restore before _ | takeDoc before => before.stop

theorem sound (history : History) : history.lexer.context.Sound := by
  induction history with
  | start settings source shift mode => exact ⟨nofun, List.not_mem_nil⟩
  | next before ih =>
    refine Lexer.next_of_advance (motive := fun lexer => lexer.context.Sound)
      (fun lexer sound => ?_) ih
    by_cases nil : lexer.rest = []
    · rwa [Lexer.advance_of_nil nil]
    · exact (Lexer.step_move nil).sound sound
  | restore before other _ ih => exact ih
  | takeDoc before ih => exact ⟨ih.named, ih.enclosing⟩

theorem stop_lexer (history : History) : history.lexer.stop = history.stop := by
  induction history with
  | start settings source shift mode => rfl
  | next before ih => exact before.lexer.stop_next.trans ih
  | restore before other ih _ => exact ih
  | takeDoc before ih => exact ih

/-- **A lexer gets on, whatever has been done with it.** The next call returns, after at most two
steps for each open mode and four more. Its token lies between where the lexer was and where it
goes on, which is within the source. A token other than the end token takes characters, or it is
the end of a heredoc that was due and leaves the mode of closing labels. So a scan ends; and once
the end token was made, every call makes it again and remembers the same. -/
theorem next_progress (history : History) :
    let lexer := history.lexer
    let token := lexer.next.token
    let later := lexer.next.lexer
    (∃ silent ≤ 2 * lexer.context.enclosing.length + 4, lexer.Returns silent) ∧
    (lexer.offset ≤ token.span.start ∧ token.span.start + token.span.length = later.offset ∧
      later.offset ≤ history.stop) ∧
    (token.kind ≠ .endOfSource → lexer.offset < later.offset ∨
      token.kind = .heredocEnd ∧ lexer.context.mode = .closingLabel ∧
        later.context.mode ≠ .closingLabel) ∧
    (∃ count, lexer.CallsUpToEnd count) ∧
    (token.kind = .endOfSource → token = ⟨.endOfSource, ⟨history.stop, 0⟩, .none⟩ ∧
      ∀ count, (later.after count).next.token = token ∧
        (later.after count).context = later.context) := by
  intro lexer token later
  refine ⟨?_, ⟨lexer.offset_le_next, lexer.next_span_stop, ?_⟩, Lexer.next_advances history.sound,
    lexer.exists_callsUpToEnd, fun ended => ⟨?_, Lexer.next_after_end ended⟩⟩
  · obtain ⟨silent, le, returns⟩ := lexer.exists_returns
    exact ⟨silent, Nat.le_trans le lexer.context.weight_le, returns⟩
  · rw [← history.stop_lexer, ← lexer.stop_next]
    exact Nat.le_add_right _ _
  · rw [← history.stop_lexer]
    exact (Lexer.next_end ended).1

end History

end PhpFrontEnd
