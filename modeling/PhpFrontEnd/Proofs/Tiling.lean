import PhpFrontEnd.Proofs.Move
import PhpFrontEnd.Proofs.Scan

/-!
# The tokens of a source tile it

A scan loses no character and reads none twice. Its tokens stand side by side, each of them where
the one before it ended, up to the end of the source. There is one kind of gap: the blanks of a
heredoc that has no body otherwise belong to no token, and such a gap ends where the closing label
begins.

The statement is made twice. `Tiling` says it along the tokens, the way a scan goes; `Tiles` says
it of all tokens at once, as a reader of the tokens would.
-/

namespace PhpFrontEnd

/-! ## Tilings -/

/-- Tokens that take up the rest of a source, which begins at an offset. -/
inductive Tiling : (offset : Nat) → (rest : List Char) → List Token → Prop where
  /-- the end token, at the end -/
  | ended {offset : Nat} : Tiling offset [] [⟨.endOfSource, ⟨offset, 0⟩, .none⟩]
  /-- a token at the characters that it takes -/
  | token {offset : Nat} {taken rest : List Char} {kind : TokenKind} {value : TokenValue}
    {tokens : List Token} (ne : taken ≠ []) (notEnd : kind ≠ .endOfSource)
    (later : Tiling (offset + taken.length) rest tokens) :
    Tiling offset (taken ++ rest) (⟨kind, ⟨offset, taken.length⟩, value⟩ :: tokens)
  /-- blanks in front of a closing label -/
  | gap {offset : Nat} {blanks rest : List Char} {closing : Token} {tokens : List Token}
    (blank : ∀ c ∈ blanks, isBlank c) (kind : closing.kind = .heredocEnd)
    (later : Tiling (offset + blanks.length) rest (closing :: tokens)) :
    Tiling offset (blanks ++ rest) (closing :: tokens)

/-- Whether a character lies in a span. -/
def Span.Covers (span : Span) (i : Nat) : Prop :=
  span.start ≤ i ∧ i < span.start + span.length

/-- Tokens that take up a source, which begins at an offset. -/
structure Tiles (offset : Nat) (source : List Char) (tokens : List Token) : Prop where
  /-- The last token is the end token, and it alone is one and is empty. -/
  ended : ∃ before, tokens = before ++ [⟨.endOfSource, ⟨offset + source.length, 0⟩, .none⟩] ∧
    ∀ token ∈ before, token.kind ≠ .endOfSource ∧ 0 < token.span.length
  /-- No token reaches out of the source. -/
  inside : ∀ token ∈ tokens, offset ≤ token.span.start ∧
    token.span.start + token.span.length ≤ offset + source.length
  /-- Tokens come in order, each after the end of those before it. -/
  ordered : tokens.Pairwise fun a b =>
    a.span.start < b.span.start ∧ a.span.start + a.span.length ≤ b.span.start
  /-- A character outside of all tokens is a blank, and from there to the beginning of a closing
  label there is no token. -/
  gaps : ∀ i c, source[i]? = some c → (∀ token ∈ tokens, ¬token.span.Covers (offset + i)) →
    isBlank c ∧ ∃ closing ∈ tokens, closing.kind = .heredocEnd ∧
      offset + i < closing.span.start ∧
      ∀ j, offset + i ≤ j → j < closing.span.start → ∀ token ∈ tokens, ¬token.span.Covers j

namespace Tiling

variable {offset : Nat} {rest : List Char} {tokens : List Token}

/-- The end token is the last one, and all others have characters. -/
theorem ended_last (h : Tiling offset rest tokens) :
    ∃ before, tokens = before ++ [⟨.endOfSource, ⟨offset + rest.length, 0⟩, .none⟩] ∧
      ∀ token ∈ before, token.kind ≠ .endOfSource ∧ 0 < token.span.length := by
  induction h with
  | ended => exact ⟨[], rfl, fun _ mem => absurd mem List.not_mem_nil⟩
  | @token offset taken rest kind value tokens ne notEnd later ih =>
    obtain ⟨before, eq, all⟩ := ih
    refine ⟨⟨kind, ⟨offset, taken.length⟩, value⟩ :: before, ?_, ?_⟩
    · rw [eq, List.length_append, Nat.add_assoc]
      rfl
    · intro token mem
      rcases List.mem_cons.1 mem with rfl | mem
      · exact ⟨notEnd, List.length_pos_iff.2 ne⟩
      · exact all token mem
  | gap blank kind later ih =>
    obtain ⟨before, eq, all⟩ := ih
    refine ⟨before, ?_, all⟩
    rw [eq, List.length_append, Nat.add_assoc]

/-- All tokens are within what is left of the source. -/
theorem inside (h : Tiling offset rest tokens) : ∀ token ∈ tokens, offset ≤ token.span.start ∧
    token.span.start + token.span.length ≤ offset + rest.length := by
  induction h with
  | ended => simp
  | token ne notEnd later ih =>
    intro token mem
    rw [List.length_append]
    rcases List.mem_cons.1 mem with rfl | mem
    · exact ⟨Nat.le_refl _, by dsimp only; omega⟩
    · have := ih token mem
      omega
  | gap blank kind later ih =>
    intro token mem
    have := ih token mem
    rw [List.length_append]
    omega

/-- Tokens come in order and do not overlap. -/
theorem ordered (h : Tiling offset rest tokens) : tokens.Pairwise fun a b =>
    a.span.start < b.span.start ∧ a.span.start + a.span.length ≤ b.span.start := by
  induction h with
  | ended => exact List.pairwise_singleton _ _
  | token ne notEnd later ih =>
    refine List.pairwise_cons.2 ⟨fun token mem => ?_, ih⟩
    have := (later.inside token mem).1
    have := List.length_pos_iff.2 ne
    dsimp only
    omega
  | gap blank kind later ih => exact ih

/-- Nothing in front of the first token is covered. -/
theorem not_covers {first : Token} (h : Tiling offset rest (first :: tokens)) {i : Nat}
    (lt : i < first.span.start) : ∀ token ∈ first :: tokens, ¬token.span.Covers i := by
  intro token mem ⟨le, _⟩
  rcases List.mem_cons.1 mem with rfl | mem
  · omega
  · have := ((List.pairwise_cons.1 h.ordered).1 token mem).1
    omega

/-- A character that no token covers is a blank in front of a closing label. -/
theorem gaps (h : Tiling offset rest tokens) : ∀ i c, rest[i]? = some c →
    (∀ token ∈ tokens, ¬token.span.Covers (offset + i)) →
    isBlank c ∧ ∃ closing ∈ tokens, closing.kind = .heredocEnd ∧
      offset + i < closing.span.start ∧
      ∀ j, offset + i ≤ j → j < closing.span.start → ∀ token ∈ tokens, ¬token.span.Covers j := by
  induction h with
  | ended =>
    intro i c some
    cases some
  | @token offset taken rest kind value tokens ne notEnd later ih =>
    intro i c some uncovered
    -- the character comes after the first token, which covers all in front
    have le : taken.length ≤ i := by
      have := uncovered _ List.mem_cons_self
      simp only [Span.Covers] at this
      omega
    rw [List.getElem?_append_right le] at some
    obtain ⟨blank, closing, mem, isEnd, lt, open_⟩ := ih (i - taken.length) c some
      fun token mem => by
        have := uncovered token (List.mem_cons_of_mem _ mem)
        rwa [show offset + taken.length + (i - taken.length) = offset + i by omega]
    refine ⟨blank, closing, List.mem_cons_of_mem _ mem, isEnd, by omega, ?_⟩
    intro j from_ to_ token mem
    rcases List.mem_cons.1 mem with rfl | mem
    · simp only [Span.Covers]
      omega
    · exact open_ j (by omega) to_ token mem
  | @gap offset blanks rest closing tokens blank kind later ih =>
    intro i c some uncovered
    rcases Nat.lt_or_ge i blanks.length with lt | le
    · -- the character is one of the blanks, and all up to the label are
      rw [List.getElem?_append_left lt] at some
      have le := (later.inside closing List.mem_cons_self).1
      exact ⟨blank c (List.mem_of_getElem? some), closing, List.mem_cons_self, kind, by omega,
        fun j _ before => later.not_covers before⟩
    · rw [List.getElem?_append_right le] at some
      have shift : offset + blanks.length + (i - blanks.length) = offset + i := by omega
      have := ih (i - blanks.length) c some
      rw [shift] at this
      exact this uncovered

end Tiling

theorem Tiling.tiles {offset : Nat} {source : List Char} {tokens : List Token}
    (h : Tiling offset source tokens) : Tiles offset source tokens :=
  ⟨h.ended_last, h.inside, h.ordered, h.gaps⟩

/-! ## Where closing labels are read

A closing label is only looked for where it stands: the mode of closing labels is entered in front
of one, and no other mode is opened inside it. That is why the end of a heredoc is never empty. A
lexer that is made to begin in that mode is the one exception, and stays out of the theorem. -/

/-- The labels that a lexer holds and is in front of. -/
structure Lexer.Labelled (lexer : Lexer) : Prop where
  named : lexer.context.Named
  /-- no closing label is left for later -/
  enclosing : .closingLabel ∉ lexer.context.enclosing
  /-- a closing label that is due is in front -/
  front : lexer.context.mode = .closingLabel → ∃ label, lexer.context.label = some label ∧
    label.toList <+: lexer.rest ∧ nextIs isIndent lexer.rest = false

namespace Context

variable {context after : Context} {kind : TokenKind} {changes : List ModeChange}

/-- To go back to what encloses a mode leads to no closing label, now or later. -/
theorem closingLabel_not_mem_pop (h : .closingLabel ∉ context.enclosing) :
    .closingLabel ∉ context.pop.enclosing ∧ context.pop.mode ≠ .closingLabel := by
  refine ⟨fun mem => h ?_, fun mode => ?_⟩
  · rw [enclosing_pop] at mem
    exact List.mem_of_mem_tail mem
  · rcases context.mode_pop with code | mem
    · rw [code] at mode
      cases mode
    · rw [mode] at mem
      exact h mem

theorem closingLabel_not_mem_pop_push (h : .closingLabel ∉ context.enclosing) :
    .closingLabel ∉ (context.pop.push .code).enclosing := by
  obtain ⟨enclosing, mode⟩ := closingLabel_not_mem_pop h
  simp only [enclosing_push, List.mem_cons, not_or]
  exact ⟨mode.symm, enclosing⟩

namespace Turn

/-- No token apart from those of heredocs leads to a closing label. -/
theorem closingLabel_not_mem (turn : context.Turn kind changes after)
    (h : .closingLabel ∉ context.enclosing) :
    .closingLabel ∉ after.enclosing ∧ after.mode ≠ .closingLabel := by
  have mode := turn.mode_ne_closingLabel
  cases turn with
  | stays | unmatched => exact ⟨h, mode⟩
  | @enters _ inner enters =>
    refine ⟨h, fun (eq : inner = .closingLabel) => ?_⟩
    rw [eq] at enters
    revert enters
    cases context.mode <;> cases kind <;> intro enters <;> cases enters
  | @opens _ inner _ opens =>
    refine ⟨?_, fun (eq : inner = .closingLabel) => ?_⟩
    · simp only [enclosing_push, List.mem_cons, not_or]
      exact ⟨mode.symm, h⟩
    · rw [eq] at opens
      simp [Mode.opens] at opens
  | closes => exact closingLabel_not_mem_pop h
  | names => exact ⟨closingLabel_not_mem_pop_push h, fun eq => Mode.noConfusion eq⟩

end Turn

end Context

namespace Lexer

/-- A lexer may begin in any mode that owes no closing label. -/
theorem labelled_start (settings : Settings) (source : List Char) (offset : Nat) {mode : Mode}
    (h : mode ≠ .closingLabel) : (start settings source offset { mode }).Labelled :=
  ⟨nofun, List.not_mem_nil, fun eq => absurd eq h⟩

/-- After each step a closing label is due only where it is in front. -/
theorem Labelled.advance {lexer : Lexer} (h : lexer.Labelled) : lexer.advance.Labelled := by
  by_cases nil : lexer.rest = []
  · rwa [advance_of_nil nil]
  obtain ⟨named, enclosing, front⟩ := h
  have labels : lexer.advance.context.Named := (step_move nil).named named
  -- a step that leads to no closing label is in front of none
  have elsewhere (apart : .closingLabel ∉ lexer.step.context.enclosing ∧
      lexer.step.context.mode ≠ .closingLabel) : lexer.advance.Labelled :=
    ⟨labels, apart.1, fun eq => absurd eq apart.2⟩
  cases step_move nil with
  | token token pos le turn => exact elsewhere (turn.closingLabel_not_mem enclosing)
  | @opensBody label mode code body nonempty token pos le same =>
    refine elsewhere ⟨?_, ?_⟩
    · rw [same, Context.enclosing_push, List.mem_cons, not_or]
      exact ⟨by rw [code]; exact nofun, enclosing⟩
    · rw [same]
      rintro (rfl : mode = .closingLabel)
      cases body
  | reachesLabel body held le at_ indent token same =>
    have eq : lexer.advance.context = lexer.context.enter .closingLabel := same
    refine ⟨labels, ?_, ?_⟩
    · rw [eq]
      exact enclosing
    · rw [eq]
      exact fun _ => ⟨_, held, at_, indent⟩
  | closesBody mode token le length same =>
    rw [same] at elsewhere
    exact elsewhere (Context.closingLabel_not_mem_pop enclosing)
  | leaves free token zero same =>
    rw [same] at elsewhere
    exact elsewhere (Context.closingLabel_not_mem_pop enclosing)
  | looksOn mode token zero same =>
    rw [same] at elsewhere
    exact elsewhere ⟨Context.closingLabel_not_mem_pop_push enclosing, nofun⟩

/-- In front of a closing label the next step takes the label and makes the end of the heredoc. -/
theorem Labelled.closes {lexer : Lexer} (h : lexer.Labelled)
    (mode : lexer.context.mode = .closingLabel) :
    lexer.rest ≠ [] ∧ 0 < lexer.step.length ∧
      ∃ value, lexer.step.token = some (.heredocEnd, value) := by
  obtain ⟨label, held, front, indent⟩ := h.front mode
  have ne : lexer.rest ≠ [] := by
    intro nil
    rw [nil, List.prefix_nil] at front
    exact h.named label held front
  refine ⟨ne, ?_⟩
  cases step_move ne with
  | token token pos le turn => exact absurd mode turn.mode_ne_closingLabel
  | opensBody code => rw [code] at mode; cases mode
  | reachesLabel body => rw [mode] at body; cases body
  | closesBody mode token le length same =>
    rw [length label held front indent]
    refine ⟨?_, _, token⟩
    rw [← String.length_toList]
    exact List.length_pos_iff.2 (h.named label held)
  | leaves free => rw [mode] at free; simp [Mode.isBody] at free
  | looksOn variableName => rw [variableName] at mode; cases mode

theorem rest_eq (lexer : Lexer) :
    lexer.rest = lexer.rest.take lexer.step.length ++ lexer.advance.rest :=
  (List.take_append_drop _ _).symm

/-- A token stands in front of the tiling of what comes after it. -/
theorem tiling_of_token {lexer : Lexer} {kind : TokenKind} {value : TokenValue}
    (later : Tiling lexer.advance.offset lexer.advance.rest lexer.advance.scan.tokens)
    (token : lexer.step.token = some (kind, value)) (notEnd : kind ≠ .endOfSource)
    (pos : 0 < lexer.step.length) (le : lexer.step.length ≤ lexer.rest.length) :
    Tiling lexer.offset lexer.rest lexer.scan.tokens := by
  have taken : (lexer.rest.take lexer.step.length).length = lexer.step.length :=
    List.length_take_of_le le
  have tiles : Tiling lexer.offset (lexer.rest.take lexer.step.length ++ lexer.advance.rest)
      (⟨kind, ⟨lexer.offset, (lexer.rest.take lexer.step.length).length⟩, value⟩ ::
        lexer.advance.scan.tokens) := by
    refine .token ?_ notEnd ?_
    · rw [← List.length_pos_iff, taken]
      exact pos
    · rw [taken]
      exact later
  rw [taken, ← lexer.rest_eq] at tiles
  rw [scan_of_token token notEnd]
  exact tiles

/-- A step that takes nothing leaves the tiling as it is. -/
theorem tiling_of_zero {lexer : Lexer}
    (later : Tiling lexer.advance.offset lexer.advance.rest lexer.advance.scan.tokens)
    (token : lexer.step.token = none) (zero : lexer.step.length = 0) :
    Tiling lexer.offset lexer.rest lexer.scan.tokens := by
  have rest : lexer.advance.rest = lexer.rest := by
    rw [lexer.rest_eq, zero]
    rfl
  have offset : lexer.advance.offset = lexer.offset := by
    change lexer.offset + lexer.step.length = _
    rw [zero]
    rfl
  rw [scan_of_silent token]
  rwa [rest, offset] at later

/-- Blanks in front of a closing label are a gap. -/
theorem Labelled.tiling_of_gap {lexer : Lexer} (h : lexer.advance.Labelled)
    (later : Tiling lexer.advance.offset lexer.advance.rest lexer.advance.scan.tokens)
    (token : lexer.step.token = none) (closing : lexer.step.context.mode = .closingLabel)
    (le : lexer.step.length ≤ lexer.rest.length)
    (blank : ∀ c ∈ lexer.rest.take lexer.step.length, isBlank c) :
    Tiling lexer.offset lexer.rest lexer.scan.tokens := by
  -- the next token is the closing label, at which the gap ends
  obtain ⟨-, -, value, ends⟩ := h.closes closing
  rw [scan_of_silent token]
  rw [scan_of_token ends nofun] at later ⊢
  have tiles := Tiling.gap blank rfl (by rw [List.length_take_of_le le]; exact later)
  rwa [← lexer.rest_eq] at tiles

/-- Tokens of all further steps tile what is left. -/
theorem Labelled.tiling {lexer : Lexer} (h : lexer.Labelled) :
    Tiling lexer.offset lexer.rest lexer.scan.tokens := by
  induction lexer using step_induction with
  | nil lexer nil =>
    rw [scan_of_nil nil, nil]
    exact .ended
  | step lexer ne ih =>
    have later := ih h.advance
    cases step_move ne with
    | token token pos le turn => exact tiling_of_token later token turn.kind_ne.2.2 pos le
    | opensBody code body nonempty token pos le same =>
      exact tiling_of_token later token nofun pos le
    | reachesLabel body held le front indent token same =>
      rcases token with ⟨token, blank⟩ | ⟨value, token, pos⟩
      · exact h.advance.tiling_of_gap later token (by rw [same]; rfl) le blank
      · exact tiling_of_token later token nofun pos le
    | closesBody mode token le length same =>
      exact tiling_of_token later token nofun (h.closes mode).2.1 le
    | leaves free token zero same => exact tiling_of_zero later token zero
    | looksOn mode token zero same => exact tiling_of_zero later token zero

/-- The tokens of a source tile it, whatever the settings and whichever mode the source begins
in, apart from that of closing labels. -/
theorem scan_tiles (settings : Settings) (source : List Char) (shift : Nat) {mode : Mode}
    (h : mode ≠ .closingLabel) :
    Tiles shift source (start settings source shift { mode }).scan.tokens :=
  (labelled_start settings source shift h).tiling.tiles

/-- The blanks in front of the closing label are the gap here. -/
theorem scan_tiles_indented_label : Mode.markup ≠ .closingLabel ∧
    Tiles 3 "<?php <<<E\n  E;".toList
      (start {} "<?php <<<E\n  E;".toList 3 { mode := .markup }).scan.tokens :=
  ⟨by decide, scan_tiles {} _ 3 (by decide)⟩

end Lexer

end PhpFrontEnd
