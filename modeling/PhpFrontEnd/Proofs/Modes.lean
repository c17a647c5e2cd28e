import Mathlib.Data.List.Chain
import Mathlib.Logic.Function.Iterate
import PhpFrontEnd.Proofs.History

/-!
# How modes nest

The modes that a lexer will return to are a stack, and any source at all works on it: braces and
quotes need not be balanced. Still the stack keeps its order (`WellNested`). Only code and the
strings that interpolate are ever returned to; code is at the bottom, and around every string; and
the small modes of an interpolation are inside a string.

A step records the work that it does on the stack (`Step.changes`), and two facts about this work
follow from the order. A mode is left only if something encloses it: of a step that does otherwise
`ModeChange.apply?` makes nothing. And a string is left by its own closing quote only, so that what
was open before the opening quote is open again right after the closing one, and not earlier.
`Lexer.ModeMove` is what the moves do to the modes.
-/

namespace PhpFrontEnd

/-! ## The order of modes -/

/-- A mode and the modes around it, innermost first. -/
structure WellNested (mode : Mode) (enclosing : List Mode) : Prop where
  /-- Code and strings that interpolate are returned to. -/
  returns : ∀ outer ∈ enclosing, outer = .code ∨ outer.interpolates
  bottom : ∀ outer, enclosing.getLast? = some outer → outer = .code
  /-- Directly inside a string there is code, if that is returned to. -/
  inside : enclosing.IsChain fun inner outer => outer.isString → inner = .code
  /-- A string is in code. -/
  string : mode.isString ∨ mode = .closingLabel → enclosing.head? = some .code
  /-- An index and a bare variable are in a string. -/
  interpolation : mode = .offset ∨ mode = .variableName →
    ∃ outer, enclosing.head? = some outer ∧ outer.interpolates
  property : mode = .property → enclosing ≠ []

/-- Modes that can be opened directly inside another. -/
def Mode.Holds (outer inner : Mode) : Prop :=
  (outer = .code ∧ inner ≠ .offset ∧ inner ≠ .variableName) ∨
    (outer.interpolates ∧ ¬inner.isString ∧ inner ≠ .closingLabel)

/-- All modes that interpolate are strings. -/
theorem Mode.isString_of_interpolates {mode : Mode} (h : mode.interpolates) : mode.isString := by
  cases mode <;> first | rfl | cases h

/-- The bodies of heredocs and nowdocs are strings. -/
theorem Mode.isString_of_isBody {mode : Mode} (h : mode.isBody) : mode.isString := by
  cases mode <;> first | rfl | cases h

namespace WellNested

variable {mode inner outer : Mode} {enclosing : List Mode}

/-- Outside of everything there are markup and code. -/
theorem start (h : mode = .markup ∨ mode = .code) : WellNested mode [] := by
  refine ⟨nofun, nofun, .nil, ?_, ?_, ?_⟩ <;> rcases h with rfl | rfl <;> simp [Mode.isString]

/-- A mode without a place of its own may stand anywhere. -/
theorem enter (h : WellNested mode enclosing) (plain : inner = .markup ∨ inner = .code) :
    WellNested inner enclosing := by
  refine ⟨h.returns, h.bottom, h.inside, ?_, ?_, ?_⟩ <;> rcases plain with rfl | rfl <;>
    simp [Mode.isString]

/-- A closing label stands where its body stood. -/
theorem closingLabel (h : WellNested mode enclosing) (body : mode.isBody) :
    WellNested .closingLabel enclosing :=
  ⟨h.returns, h.bottom, h.inside, fun _ => h.string (.inl (Mode.isString_of_isBody body)),
    nofun, nofun⟩

/-- Every mode but markup and code is inside another. -/
theorem ne_nil (h : WellNested mode enclosing) (notMarkup : mode ≠ .markup)
    (notCode : mode ≠ .code) : enclosing ≠ [] := by
  rintro rfl
  have noString : ¬(mode.isString ∨ mode = .closingLabel) := fun inString =>
    nomatch h.string inString
  have noInterpolation : ¬(mode = .offset ∨ mode = .variableName) := fun inside => by
    obtain ⟨outer, head, -⟩ := h.interpolation inside
    cases head
  have noProperty : mode ≠ .property := fun property => h.property property rfl
  cases mode <;> simp_all [Mode.isString]

/-- A mode may be opened where there is a place for it. -/
theorem push (h : WellNested mode enclosing) (holds : mode.Holds inner) :
    WellNested inner (mode :: enclosing) := by
  rcases holds with ⟨rfl, notOffset, notName⟩ | ⟨interpolates, noString, notLabel⟩
  · refine ⟨?_, ?_, ?_, fun _ => rfl, fun inside => ?_, fun _ => List.cons_ne_nil _ _⟩
    · intro outer mem
      rcases List.mem_cons.1 mem with rfl | mem
      · exact .inl rfl
      · exact h.returns outer mem
    · intro outer last
      rcases enclosing with _ | ⟨next, more⟩
      · exact (Option.some.inj last).symm
      · rw [List.getLast?_cons_cons] at last
        exact h.bottom outer last
    · exact h.inside.cons fun _ _ _ => rfl
    · exact absurd inside (not_or.2 ⟨notOffset, notName⟩)
  · -- the string that holds the mode is itself in code
    have head := h.string (.inl (Mode.isString_of_interpolates interpolates))
    obtain ⟨more, rfl⟩ := List.head?_eq_some_iff.1 head
    refine ⟨?_, ?_, ?_, fun inString => ?_, fun _ => ⟨mode, rfl, interpolates⟩,
      fun _ => List.cons_ne_nil _ _⟩
    · intro outer mem
      rcases List.mem_cons.1 mem with rfl | mem
      · exact .inr interpolates
      · exact h.returns outer mem
    · intro outer last
      rw [List.getLast?_cons_cons] at last
      exact h.bottom outer last
    · exact List.isChain_cons_cons.2 ⟨nofun, h.inside⟩
    · exact absurd inString (not_or.2 ⟨noString, notLabel⟩)

/-- What is returned to stands where it stood before. -/
theorem pop (h : WellNested mode (outer :: enclosing)) : WellNested outer enclosing := by
  have returns (mode : Mode) (mem : mode ∈ enclosing) :=
    h.returns mode (List.mem_cons_of_mem _ mem)
  have outerReturns := h.returns outer List.mem_cons_self
  refine ⟨returns, ?_, h.inside.tail, fun inString => ?_, fun inside => ?_, fun property => ?_⟩
  · intro last eq
    rcases enclosing with _ | ⟨next, more⟩
    · cases eq
    · exact h.bottom last (by rw [List.getLast?_cons_cons]; exact eq)
  · have notCode : outer ≠ .code := by
      rintro rfl
      rcases inString with string | label
      · cases string
      · cases label
    rcases enclosing with _ | ⟨next, more⟩
    · exact absurd (h.bottom outer rfl) notCode
    · rcases returns next List.mem_cons_self with rfl | interpolates
      · rfl
      · -- directly inside a string there is no other string
        have inside := (List.isChain_cons_cons.1 h.inside).1
        exact absurd (inside (Mode.isString_of_interpolates interpolates)) notCode
  · rcases outerReturns with rfl | interpolates
    · simp at inside
    · rcases inside with rfl | rfl <;> cases interpolates
  · rcases outerReturns with rfl | interpolates
    · cases property
    · rw [property] at interpolates
      cases interpolates

end WellNested

/-! ## The work on the modes -/

/-- The modes after a change, innermost first. A mode that nothing encloses cannot be left. -/
def ModeChange.apply? (modes : List Mode) : ModeChange → Option (List Mode)
  | .push inner => some (inner :: modes)
  | .pop =>
    match modes with
    | _ :: outer :: more => some (outer :: more)
    | _ => none
  | .enter mode =>
    match modes with
    | _ :: more => some (mode :: more)
    | [] => none

/-- A mode and those around it. -/
def Context.modes (context : Context) : List Mode := context.mode :: context.enclosing

/-- The changes that the next step makes to the modes, one after the other. -/
def Lexer.changes (lexer : Lexer) : List ModeChange := lexer.step.changes

/-- The string that a quote opens and closes. -/
def TokenKind.quotedMode? : TokenKind → Option Mode
  | .singleQuote => some .singleQuoted
  | .doubleQuote => some .doubleQuoted
  | .backquote => some .backquoted
  | _ => none

/-- What the next step does to the modes. -/
inductive Lexer.ModeMove (lexer : Lexer) : Prop where
  | stays (changes : lexer.changes = [])
    (same : lexer.step.context.modes = lexer.context.modes)
  | enters {mode : Mode} (changes : lexer.changes = [.enter mode])
    (plain : (¬lexer.context.mode.isString ∧ (mode = .markup ∨ mode = .code)) ∨
      (lexer.context.mode.isBody ∧ mode = .closingLabel))
    (same : lexer.step.context.modes = mode :: lexer.context.enclosing)
  | opens {inner : Mode} (changes : lexer.changes = [.push inner])
    (holds : lexer.context.mode.Holds inner)
    (same : lexer.step.context.modes = inner :: lexer.context.modes)
  /-- a mode is left; a string by its own quote -/
  | leaves (changes : lexer.changes = [.pop]) (notMarkup : lexer.context.mode ≠ .markup)
    (code : lexer.context.mode = .code → lexer.context.enclosing ≠ [])
    (quote : ∀ kind, kind.quotedMode? = some lexer.context.mode →
      ∃ value, lexer.step.token = some (kind, value))
    (same : lexer.step.context.modes = lexer.context.pop.modes)
  | looksOn (changes : lexer.changes = [.pop, .push .code])
    (mode : lexer.context.mode = .variableName)
    (same : lexer.step.context.modes = (lexer.context.pop.push .code).modes)

namespace TokenKind

variable {mode : Mode} {kind : TokenKind}

theorem mode_of_quotedMode? (h : kind.quotedMode? = some mode) :
    mode = .singleQuoted ∨ mode = .doubleQuoted ∨ mode = .backquoted := by
  cases kind <;> cases h <;> simp

/-- A string is closed by its quote and by no other token. -/
theorem eq_of_closes {quote : TokenKind} (h : mode.closes kind)
    (quoted : quote.quotedMode? = some mode) : kind = quote := by
  unfold Mode.closes at h
  split at h <;> first
    | contradiction
    | (cases quote <;> first | rfl | cases quoted)

end TokenKind

/-- The tokens that open a mode open it where it may stand. -/
theorem Mode.holds_of_opens {mode inner : Mode} {kind : TokenKind} (h : mode.opens kind inner) :
    mode.Holds inner := by
  obtain ⟨code, mem⟩ | ⟨interpolates, mem⟩ := opener h
  · have holds : ∀ opened ∈ openedInCode, opened.2 ≠ .offset ∧ opened.2 ≠ .variableName := by
      decide
    exact .inl ⟨code, holds _ mem⟩
  · have holds : ∀ opened ∈ openedInString, ¬opened.2.isString ∧ opened.2 ≠ .closingLabel := by
      decide
    exact .inr ⟨interpolates, holds _ mem⟩

/-- Only markup and code turn into one another. -/
theorem Mode.plain_of_enters {mode inner : Mode} {kind : TokenKind}
    (h : mode.enters? kind = some inner) :
    ¬mode.isString ∧ (inner = .markup ∨ inner = .code) := by
  unfold Mode.enters? at h
  split at h <;> cases h
  · exact ⟨nofun, .inr rfl⟩
  · exact ⟨nofun, .inr rfl⟩
  · exact ⟨nofun, .inl rfl⟩

theorem Mode.ne_markup_of_closes {mode : Mode} {kind : TokenKind} (h : mode.closes kind) :
    mode ≠ .markup := by
  rintro rfl
  cases h

namespace Lexer

variable {lexer : Lexer}

/-- A token moves the modes as it turns what is remembered. -/
theorem modeMove_of_turn {kind : TokenKind} {value : TokenValue}
    (token : lexer.step.token = some (kind, value))
    (turn : lexer.context.Turn kind lexer.step.changes lexer.step.context) : lexer.ModeMove := by
  obtain ⟨made, changes⟩ : ∃ made, lexer.step.changes = made := ⟨_, rfl⟩
  obtain ⟨after, same⟩ : ∃ after, lexer.step.context = after := ⟨_, rfl⟩
  rw [changes, same] at turn
  cases turn with
  | stays doc => exact .stays changes (by rw [same]; rfl)
  | enters h => exact .enters changes (.inl (Mode.plain_of_enters h)) (by rw [same]; rfl)
  | opens doc h => exact .opens changes (Mode.holds_of_opens h) (by rw [same]; rfl)
  | closes doc h inside =>
    refine .leaves changes (Mode.ne_markup_of_closes h) inside (fun quote quoted => ?_) ?_
    · obtain rfl := TokenKind.eq_of_closes h quoted
      exact ⟨value, token⟩
    · rw [same]
      unfold Context.pop
      dsimp only
      split <;> rfl
  | unmatched doc => exact .stays changes (by rw [same]; rfl)
  | names mode => exact .looksOn changes mode (by rw [same])

/-- Every step is one of these. -/
theorem modeMove (lexer : Lexer) : lexer.ModeMove := by
  by_cases nil : lexer.rest = []
  · have stands := step_of_rest_eq_nil nil
    exact .stays (congrArg Step.changes stands) (congrArg (Context.modes ∘ Step.context) stands)
  cases step_move nil with
  | token token pos le turn => exact modeMove_of_turn token turn
  | @opensBody label mode code body ne token pos le same changes =>
    refine .opens changes (.inl ⟨code, ?_, ?_⟩) (by rw [same]; rfl)
    · rintro rfl
      cases body
    · rintro rfl
      cases body
  | reachesLabel body held le front indent token same changes =>
    exact .enters changes (.inr ⟨body, rfl⟩) (by rw [same]; rfl)
  | closesBody mode token le length same changes =>
    refine .leaves changes (by rw [mode]; exact nofun) (by rw [mode]; exact nofun) ?_
      (by rw [same]; rfl)
    intro quote quoted
    rw [mode] at quoted
    cases quote <;> cases quoted
  | leaves free token zero same changes =>
    have other (mode : Mode) (h : mode ≠ .property ∧ mode ≠ .offset ∧ ¬mode.isBody) :
        lexer.context.mode ≠ mode := by
      rintro rfl
      rcases free with property | offset | ⟨body, -⟩
      · exact h.1 property
      · exact h.2.1 offset
      · exact h.2.2 body
    refine .leaves changes (other _ (by decide)) (fun code => absurd code (other _ (by decide))) ?_
      (by rw [same])
    intro quote quoted
    rcases TokenKind.mode_of_quotedMode? quoted with mode | mode | mode <;>
      exact absurd mode (other _ (by decide))
  | looksOn mode token zero same changes => exact .looksOn changes mode (by rw [same])

end Lexer

/-! ## Runs -/

theorem Context.modes_pop {context : Context} (h : context.enclosing ≠ []) :
    context.pop.modes = context.enclosing := by
  obtain ⟨outer, more, eq⟩ := List.exists_cons_of_ne_nil h
  rw [pop, eq]
  rfl

theorem Context.modes_pop_push {context : Context} (h : context.enclosing ≠ []) :
    (context.pop.push .code).modes = .code :: context.enclosing :=
  congrArg (List.cons Mode.code) (modes_pop h)

/-- A context whose modes are well nested. -/
def Context.WellNested (context : Context) : Prop :=
  PhpFrontEnd.WellNested context.mode context.enclosing

theorem Context.wellNested_iff {context : Context} {mode : Mode} {enclosing : List Mode}
    (h : context.modes = mode :: enclosing) :
    context.WellNested ↔ PhpFrontEnd.WellNested mode enclosing := by
  obtain ⟨rfl, rfl⟩ := List.cons.inj h
  exact Iff.rfl

/-- To go back leaves the order as it is. -/
theorem Context.WellNested.pop {context : Context} (h : context.WellNested)
    (ne : context.enclosing ≠ []) : context.pop.WellNested := by
  obtain ⟨outer, more, eq⟩ := List.exists_cons_of_ne_nil ne
  have nested : PhpFrontEnd.WellNested context.mode (outer :: more) := by
    rw [← eq]
    exact h
  rw [wellNested_iff ((modes_pop ne).trans eq)]
  exact nested.pop

/-- A quote that opens a mode opens its string, in code. -/
theorem Context.Turn.modes_of_quote {context after : Context} {quote : TokenKind} {quoted : Mode}
    {changes : List ModeChange} (turn : context.Turn quote changes after)
    (isQuote : quote.quotedMode? = some quoted)
    (opens : context.enclosing.length < after.enclosing.length) :
    context.mode = .code ∧ after.modes = quoted :: context.modes := by
  cases turn with
  | stays | enters | unmatched => exact absurd opens (Nat.lt_irrefl _)
  | @opens _ inner doc h =>
    refine ⟨?_, ?_⟩
    · cases quote <;> cases isQuote <;> cases inner <;> first | exact eq_of_beq h | cases h
    · cases quote <;> cases isQuote <;> cases inner <;> first | rfl | cases h
  | closes doc =>
    exact absurd (Context.length_enclosing_pop { context with doc }) (Nat.not_le.2 opens)
  | names => cases isQuote

namespace Lexer

variable {lexer : Lexer}

/-- Where a mode is left, it is inside another. -/
theorem ModeMove.enclosing_ne_nil (h : lexer.context.WellNested)
    (notMarkup : lexer.context.mode ≠ .markup)
    (code : lexer.context.mode = .code → lexer.context.enclosing ≠ []) :
    lexer.context.enclosing ≠ [] := by
  by_cases mode : lexer.context.mode = .code
  · exact code mode
  · exact h.ne_nil notMarkup mode

/-- What is well nested stays so. -/
theorem wellNested_advance (h : lexer.context.WellNested) : lexer.advance.context.WellNested := by
  change lexer.step.context.WellNested
  cases lexer.modeMove with
  | stays changes same => rwa [Context.wellNested_iff same]
  | enters changes plain same =>
    rw [Context.wellNested_iff same]
    rcases plain with ⟨-, plain⟩ | ⟨body, rfl⟩
    · exact h.enter plain
    · exact h.closingLabel body
  | opens changes holds same =>
    rw [Context.wellNested_iff same]
    exact h.push holds
  | leaves changes notMarkup code quote same =>
    have ne := ModeMove.enclosing_ne_nil h notMarkup code
    rw [Context.wellNested_iff same]
    exact h.pop ne
  | looksOn changes mode same =>
    have ne := h.ne_nil (by rw [mode]; exact nofun) (by rw [mode]; exact nofun)
    rw [Context.wellNested_iff (same.trans (Context.modes_pop_push ne))]
    exact h.enter (.inr rfl)

/-- The changes of a step can all be made, and lead to the modes after it. -/
theorem applied_changes (h : lexer.context.WellNested) :
    lexer.changes.foldlM ModeChange.apply? lexer.context.modes =
      some lexer.advance.context.modes := by
  change _ = some lexer.step.context.modes
  cases lexer.modeMove with
  | stays changes same =>
    rw [changes, same]
    rfl
  | enters changes plain same =>
    rw [changes, same]
    rfl
  | opens changes holds same =>
    rw [changes, same]
    rfl
  | leaves changes notMarkup code quote same =>
    have ne := ModeMove.enclosing_ne_nil h notMarkup code
    obtain ⟨outer, more, eq⟩ := List.exists_cons_of_ne_nil ne
    rw [changes, same, Context.modes_pop ne, Context.modes, eq]
    rfl
  | looksOn changes mode same =>
    have ne := h.ne_nil (by rw [mode]; exact nofun) (by rw [mode]; exact nofun)
    obtain ⟨outer, more, eq⟩ := List.exists_cons_of_ne_nil ne
    rw [changes, same, Context.modes_pop_push ne, Context.modes, eq]
    rfl

/-! ## Strings -/

/-- A string and what is around it stay until the string is left, and its quote leaves it. -/
theorem string_advance {quote : TokenKind} {quoted : Mode} {inner below : List Mode}
    (isQuote : quote.quotedMode? = some quoted) (ne : below ≠ [])
    (modes : lexer.context.modes = inner ++ quoted :: below) :
    (∃ inner, lexer.advance.context.modes = inner ++ quoted :: below) ∨
      (∃ value, lexer.step.token = some (quote, value)) ∧
        lexer.advance.context.modes = below := by
  change (∃ inner, lexer.step.context.modes = inner ++ quoted :: below) ∨
    _ ∧ lexer.step.context.modes = below
  rcases inner with _ | ⟨mode, inner⟩
  · obtain ⟨rfl, rfl⟩ := List.cons.inj modes
    cases lexer.modeMove with
    | stays changes same => exact .inl ⟨[], same⟩
    | @enters mode changes plain same =>
      rcases TokenKind.mode_of_quotedMode? isQuote with mode | mode | mode <;>
        simp [mode, Mode.isString, Mode.isBody] at plain
    | @opens mode changes holds same => exact .inl ⟨[mode], same⟩
    | leaves changes notMarkup code quote same =>
      exact .inr ⟨quote _ isQuote, same.trans (Context.modes_pop ne)⟩
    | looksOn changes mode same =>
      rw [mode] at isQuote
      cases quote <;> cases isQuote
  · obtain ⟨rfl, enclosing⟩ := List.cons.inj modes
    have inside : lexer.context.enclosing ≠ [] := by
      rw [enclosing]
      exact List.append_ne_nil_of_right_ne_nil _ (List.cons_ne_nil _ _)
    left
    cases lexer.modeMove with
    | stays changes same => exact ⟨lexer.context.mode :: inner, same.trans modes⟩
    | @enters mode changes plain same => exact ⟨mode :: inner, by rw [same, enclosing]; rfl⟩
    | @opens mode changes holds same =>
      exact ⟨mode :: lexer.context.mode :: inner, by rw [same, modes]; rfl⟩
    | leaves changes notMarkup code quote same =>
      exact ⟨inner, by rw [same, Context.modes_pop inside, enclosing]; rfl⟩
    | looksOn changes mode same =>
      exact ⟨.code :: inner, by rw [same, Context.modes_pop_push inside, enclosing]; rfl⟩

/-- As long as no fewer modes are open than around a string, the string is open. -/
theorem string_iterate {quote : TokenKind} {quoted : Mode} {inner below : List Mode}
    (isQuote : quote.quotedMode? = some quoted) (ne : below ≠ [])
    (modes : lexer.context.modes = inner ++ quoted :: below) (count : Nat)
    (deep : ∀ k ≤ count, below.length ≤ (advance^[k] lexer).context.enclosing.length) :
    ∃ inner, (advance^[count] lexer).context.modes = inner ++ quoted :: below := by
  induction count with
  | zero => exact ⟨inner, modes⟩
  | succ count ih =>
    obtain ⟨inner, modes⟩ := ih fun k le => deep k (Nat.le_succ_of_le le)
    rw [Function.iterate_succ_apply']
    rcases string_advance isQuote ne modes with open_ | ⟨-, left⟩
    · exact open_
    · -- with the string gone fewer modes are open
      have length := congrArg List.length left
      have deep := deep (count + 1) (Nat.le_refl _)
      rw [Function.iterate_succ_apply'] at deep
      rw [Context.modes, List.length_cons] at length
      omega

/-- A quote after which more modes are open opens a string in code. -/
theorem modes_of_quote {quote : TokenKind} {quoted : Mode} {value : TokenValue}
    (isQuote : quote.quotedMode? = some quoted)
    (token : lexer.step.token = some (quote, value))
    (opens : lexer.context.enclosing.length < lexer.advance.context.enclosing.length) :
    lexer.context.mode = .code ∧ lexer.advance.context.modes = quoted :: lexer.context.modes := by
  have ne : lexer.rest ≠ [] := by
    intro nil
    rw [advance_of_nil nil] at opens
    exact absurd opens (Nat.lt_irrefl _)
  change lexer.context.enclosing.length < lexer.step.context.enclosing.length at opens
  change _ ∧ lexer.step.context.modes = _
  cases step_move ne with
  | token made pos le turn =>
    obtain ⟨rfl, rfl⟩ := Step.token_inj made token
    exact turn.modes_of_quote isQuote opens
  | opensBody _ _ _ made | closesBody _ made =>
    obtain ⟨rfl, rfl⟩ := Step.token_inj made token
    cases isQuote
  | reachesLabel body held le front indent made same =>
    rw [same] at opens
    exact absurd opens (Nat.lt_irrefl _)
  | leaves _ none | looksOn _ none =>
    rw [none] at token
    cases token

/-- Whatever a string contains, the first moment at which no more modes are open than in front of
it is right after its closing quote, and then the same modes are open. -/
theorem string_closes {quote : TokenKind} {quoted : Mode} {value : TokenValue} {length : Nat}
    (isQuote : quote.quotedMode? = some quoted)
    (token : lexer.step.token = some (quote, value))
    (opens : lexer.context.enclosing.length < lexer.advance.context.enclosing.length)
    (deep : ∀ k ≤ length, lexer.context.enclosing.length <
      (advance^[k + 1] lexer).context.enclosing.length)
    (left : (advance^[length + 2] lexer).context.enclosing.length ≤
      lexer.context.enclosing.length) :
    (∃ value, (advance^[length + 1] lexer).step.token = some (quote, value)) ∧
      (advance^[length + 2] lexer).context.modes = lexer.context.modes := by
  have opened : lexer.advance.context.modes = [] ++ quoted :: lexer.context.modes :=
    (modes_of_quote isQuote token opens).2
  obtain ⟨inner, modes⟩ := string_iterate isQuote (List.cons_ne_nil _ _) opened length deep
  have next : advance^[length + 2] lexer = (advance^[length] lexer.advance).advance :=
    Function.iterate_succ_apply' advance length lexer.advance
  rw [next] at left ⊢
  rcases string_advance isQuote (List.cons_ne_nil _ _) modes with ⟨inner, open_⟩ | closed
  · have := congrArg List.length open_
    simp only [Context.modes, List.length_cons, List.length_append] at this
    omega
  · exact closed

/-- A string that a quote opens in code ends with the same kind of quote, and what was open in front
of it is open again. -/
structure StringClosed (quote : TokenKind) (before last : Lexer) : Prop where
  code : before.context.mode = .code
  closing : ∃ value, last.step.token = some (quote, value)
  same : last.advance.context.modes = before.context.modes

/-- How the modes nest from a first lexer on. -/
structure ModesNest (first : Lexer) : Prop where
  /-- Each call is some steps, of which the last makes its token. -/
  calls : ∀ count, ∃ steps silent, first.after count = advance^[steps] first ∧
    (∀ i < silent, (advance^[steps + i] first).step.token = none) ∧
    (advance^[steps + silent] first).step.token.isSome ∧
    first.after (count + 1) = advance^[steps + silent + 1] first
  nested : ∀ steps, (advance^[steps] first).context.WellNested
  /-- No change fails, and so none leaves a mode that nothing encloses. -/
  changes : ∀ steps, (advance^[steps] first).changes.foldlM ModeChange.apply?
    (advance^[steps] first).context.modes = some (advance^[steps + 1] first).context.modes
  /-- The first moment at which no more modes are open than in front of a string. -/
  strings : ∀ {quote value opening length}, quote.quotedMode?.isSome →
    (advance^[opening] first).step.token = some (quote, value) →
    (∀ k ≤ length, (advance^[opening] first).context.enclosing.length <
      (advance^[opening + (k + 1)] first).context.enclosing.length) →
    (advance^[opening + (length + 2)] first).context.enclosing.length ≤
      (advance^[opening] first).context.enclosing.length →
    StringClosed quote (advance^[opening] first) (advance^[opening + (length + 1)] first)

theorem iterate_add (first : Lexer) (m n : Nat) :
    advance^[m + n] first = advance^[n] (advance^[m] first) := by
  rw [Nat.add_comm, Function.iterate_add_apply]

theorem after_succ_eq_next (first : Lexer) (count : Nat) :
    first.after (count + 1) = (first.after count).next.lexer := by
  induction count generalizing first with
  | zero => rfl
  | succ count ih => exact ih first.next.lexer

/-- Calls are steps, as many as it takes. -/
theorem exists_after_eq (first : Lexer) (count : Nat) :
    ∃ steps, first.after count = advance^[steps] first := by
  induction count with
  | zero => exact ⟨0, rfl⟩
  | succ count ih =>
    obtain ⟨steps, eq⟩ := ih
    obtain ⟨silent, -, returns⟩ := (first.after count).exists_returns
    refine ⟨steps + (silent + 1), ?_⟩
    rw [after_succ_eq_next, returns.after, eq, ← iterate_add]

/-- If the order is kept at first, modes nest after any number of steps. -/
theorem modesNest_of_wellNested {first : Lexer} (h : first.context.WellNested) :
    first.ModesNest := by
  have nested (steps : Nat) : (advance^[steps] first).context.WellNested := by
    induction steps with
    | zero => exact h
    | succ steps ih =>
      rw [Function.iterate_succ_apply']
      exact wellNested_advance ih
  refine ⟨?calls, nested, ?changes, ?strings⟩
  case calls =>
    intro count
    obtain ⟨steps, eq⟩ := exists_after_eq first count
    obtain ⟨silent, -, returns⟩ := (advance^[steps] first).exists_returns
    refine ⟨steps, silent, eq, fun i lt => ?_, ?_, ?_⟩
    · rw [iterate_add]
      exact returns.before i lt
    · rw [iterate_add, returns.made]
      rfl
    · rw [after_succ_eq_next, eq, returns.after, ← iterate_add, Nat.add_assoc]
  case changes =>
    intro steps
    rw [Function.iterate_succ_apply']
    exact applied_changes (nested steps)
  case strings =>
    intro quote value opening length isQuote token deep left
    obtain ⟨quoted, isQuote⟩ := Option.isSome_iff_exists.1 isQuote
    simp only [iterate_add first opening] at deep left ⊢
    have opens := deep 0 (Nat.zero_le _)
    obtain ⟨closing, same⟩ := string_closes isQuote token opens deep left
    refine ⟨(modes_of_quote isQuote token opens).1, closing, ?_⟩
    rwa [← Function.iterate_succ_apply' advance]

/-- The modes of a source that begins in markup or in code nest, whatever the source is. -/
theorem modes_nest (settings : Settings) (source : List Char) (shift : Nat) {mode : Mode}
    (h : mode = .markup ∨ mode = .code) :
    (start settings source shift { mode }).ModesNest :=
  modesNest_of_wellNested (WellNested.start h)

/-- A string inside a string, and a brace too many. -/
theorem modes_nest_string_in_string : (Mode.markup = .markup ∨ Mode.markup = .code) ∧
    (start {} "<?php \"a\x7b$b[\"c$d\"]\x7d\"; \x7d".toList 0 { mode := .markup }).ModesNest :=
  ⟨.inl rfl, modes_nest {} _ 0 (.inl rfl)⟩

end Lexer

end PhpFrontEnd
