import PhpFrontEnd.Proofs.BodyEnd
import PhpFrontEnd.Proofs.Decoding

/-!
# Whether a line starts

A step in the body of a heredoc asks whether a line starts at the next character, for two reasons.
A closing label counts at the start of a line only, and the indentation of a line is checked and
removed from there.

So a text may be read in two ways, as the start of a line and as the rest of one. `ReadsAlike` says
when both come to the same: no closing label is in front, and the fragment in front is dedented
alike. That this is not too much to ask follows from what decoding tells apart: a fragment that is
dedented differently makes another token.
-/

namespace PhpFrontEnd

/-! ## Dedented fragments -/

namespace Heredoc

/-- What comes of an earlier fragment, given the indentation of the closing label. -/
def dedentEarlier (source indent : List Char) (lineStart : Bool) : Dedented :=
  ⟨!isIndentedBy source lineStart indent, dedent source lineStart indent.length⟩

/-- Whether a fragment is wrong can be told from what is reported. -/
theorem Dedented.wrong_eq {a b : Dedented} {errors : List LexError}
    (h : a.errors ++ errors = b.errors ++ errors) : a.wrong = b.wrong := by
  have same := List.append_cancel_right h
  obtain ⟨wrong, _⟩ := a
  obtain ⟨wrong', _⟩ := b
  cases wrong <;> cases wrong'
  case false.false | true.true => rfl
  all_goals cases same

/-- In the middle of a line a closing label comes after the end of the line. -/
theorem ClosesAt.indent_lt {label text : List Char} {before indent : Nat}
    (h : ClosesAt label text false before indent) :
    (text.takeWhile isIndent).length < (text.take before).length := by
  rcases h.lineBegin with ⟨-, lineStart⟩ | ⟨lines, eq⟩
  · cases lineStart
  refine Nat.lt_of_not_le fun le => ?_
  -- otherwise the line feed would be one of the blanks
  have front : text.take before <+: text.takeWhile isIndent :=
    List.prefix_of_prefix_length_le (List.take_prefix _ _) (List.takeWhile_prefix _) le
  have mem : '\n' ∈ text.takeWhile isIndent :=
    front.subset (by rw [eq]; exact List.mem_append_right _ List.mem_cons_self)
  cases List.all_eq_true.1 List.all_takeWhile _ mem

theorem ClosesAt.indent_lt_take {label text : List Char} {before indent : Nat}
    (h : ClosesAt label text false before indent) :
    (text.takeWhile isIndent).length < (text.take (before + indent)).length := by
  have lt := h.indent_lt
  rw [List.length_take] at lt ⊢
  omega

/-- A text without line feeds is one line. -/
theorem Lines.of_eq {text : List Char} (h : '\n' ∉ text) : Lines.of text = ⟨[], text⟩ := by
  induction text with
  | nil => rfl
  | cons c rest ih =>
    simp only [List.mem_cons, not_or] at h
    rw [Lines.of, ih h.2]
    exact if_neg (Ne.symm h.1)

/-- Of blanks in front of the closing label nothing is left. -/
theorem dedentLast_blanks {source : List Char} (h : ∀ c ∈ source, isIndent c) :
    dedentLast source true = ⟨false, []⟩ := by
  have lines : Lines.of source = ⟨[], source⟩ := Lines.of_eq fun mem => nomatch h _ mem
  simp [dedentLast, resolve, finalBody, lines, dedent, dedentFrom, List.intercalate]

end Heredoc

/-- The beginning of an interpolation makes a token. -/
theorem Interpolation.AtStart.makes {context : Context} {text : List Char} {step : Step}
    (h : AtStart context text step) : 0 < step.length ∧ step.token ≠ none := by
  cases h with
  | dollarBrace => exact ⟨Nat.two_pos, nofun⟩
  | brace => exact ⟨Nat.one_pos, nofun⟩
  | element | property | plain => exact ⟨Nat.succ_pos _, nofun⟩

namespace HeredocBody

variable {settings : Settings} {context : Context} {label : String} {text : List Char}

/-- The indentation of the closing label that comes first in a text. -/
def indentAhead (label after : List Char) : List Char :=
  match Heredoc.ClosingLabel.ahead? label after with
  | some found => (after.take found.labelStart).drop found.lineStart
  | none => []

/-- An earlier fragment becomes a run of what is left after dedenting it. -/
theorem fragmentStep_eq (settings : Settings) (context : Context) (label : List Char)
    (lineStart : Bool) (source after : List Char) :
    fragmentStep settings context label lineStart source after =
      let dedented := Heredoc.dedentEarlier source (indentAhead label after) lineStart
      let decoded := decodeFragment settings false dedented.body
      { Step.emitRun context source decoded with
        errors := dedented.errors ++ decoded.errors source } := by
  unfold fragmentStep Heredoc.dedentEarlier Heredoc.Dedented.errors indentAhead
  dsimp only
  cases Heredoc.isIndentedBy source lineStart _ <;> rfl

/-- The text of a fragment tells how it was dedented. -/
theorem eq_of_decodeFragment {isNowdoc : Bool} {width left width' left' : Nat}
    {source : List Char}
    (h : (decodeFragment settings isNowdoc (Heredoc.dedentFrom width left source)).text =
      (decodeFragment settings isNowdoc (Heredoc.dedentFrom width' left' source)).text) :
    Heredoc.dedentFrom width left source = Heredoc.dedentFrom width' left' source := by
  cases isNowdoc with
  | false =>
    exact EscapeRules.dedentFrom_eq_of_octets (EscapeRules.octets_eq_of_decodeBody rfl h)
  | true => exact String.ofList_injective (Text.str.inj h)

/-- So do its text and its diagnostics together. -/
theorem dedented_eq {isNowdoc : Bool} {source : List Char} {a b : Heredoc.Dedented}
    (bodies : (decodeFragment settings isNowdoc a.body).text =
      (decodeFragment settings isNowdoc b.body).text → a.body = b.body)
    (text : (decodeFragment settings isNowdoc a.body).text =
      (decodeFragment settings isNowdoc b.body).text)
    (errors : a.errors ++ (decodeFragment settings isNowdoc a.body).errors source =
      b.errors ++ (decodeFragment settings isNowdoc b.body).errors source) : a = b := by
  have body := bodies text
  rw [body] at errors
  exact Heredoc.Dedented.ext (Heredoc.Dedented.wrong_eq errors) body

/-- Runs with the same value have the same text. -/
theorem run_text_inj {text text' : Text} {raw : String}
    (h : some (TokenKind.textRun, TokenValue.run text raw) = some (.textRun, .run text' raw)) :
    text = text' :=
  (TokenValue.run.inj (Prod.mk.inj (Option.some.inj h)).2).1

/-- The last fragment of a body tells how it was dedented, also if nothing is left of it. -/
theorem closeStep_inj {isNowdoc lineStart lineStart' : Bool} {source : List Char}
    (token : (closeStep settings context isNowdoc lineStart source).token =
      (closeStep settings context isNowdoc lineStart' source).token)
    (errors : (closeStep settings context isNowdoc lineStart source).errors =
      (closeStep settings context isNowdoc lineStart' source).errors) :
    Heredoc.dedentLast source lineStart = Heredoc.dedentLast source lineStart' := by
  have bodies : (decodeFragment settings isNowdoc (Heredoc.dedentLast source lineStart).body).text =
        (decodeFragment settings isNowdoc (Heredoc.dedentLast source lineStart').body).text →
      (Heredoc.dedentLast source lineStart).body = (Heredoc.dedentLast source lineStart').body := by
    obtain ⟨width, left, eq⟩ := Heredoc.dedentLast_body source lineStart
    obtain ⟨width', left', eq'⟩ := Heredoc.dedentLast_body source lineStart'
    rw [eq, eq']
    exact eq_of_decodeFragment
  rw [closeStep_eq, closeStep_eq] at token errors
  dsimp only at token errors
  split at token <;> split at token
  · rename_i nil nil'
    rw [if_pos nil, if_pos nil'] at errors
    refine Heredoc.Dedented.ext (@Heredoc.Dedented.wrong_eq _ _ [] ?_) ?_
    · rw [List.append_nil, List.append_nil]
      exact errors
    · rw [List.isEmpty_iff.1 nil, List.isEmpty_iff.1 nil']
  · cases token
  · cases token
  · rename_i some some'
    rw [if_neg some, if_neg some'] at errors
    exact dedented_eq bodies (run_text_inj token) errors

theorem fragmentStep_inj {name : List Char} {lineStart lineStart' : Bool}
    {source after : List Char}
    (token : (fragmentStep settings context name lineStart source after).token =
      (fragmentStep settings context name lineStart' source after).token)
    (errors : (fragmentStep settings context name lineStart source after).errors =
      (fragmentStep settings context name lineStart' source after).errors) :
    Heredoc.dedentEarlier source (indentAhead name after) lineStart =
      Heredoc.dedentEarlier source (indentAhead name after) lineStart' := by
  rw [fragmentStep_eq, fragmentStep_eq] at token errors
  exact dedented_eq eq_of_decodeFragment (run_text_inj token) errors

/-! ## Lines that may be whole -/

/-- If no closing label is in front, the search for one goes on alike. -/
theorem fragment_of_not_closing {name : List Char}
    (h : Heredoc.closingIndent? name text = none) :
    fragment name true text = fragment name false text := by
  rw [fragment.eq_def name true, fragment.eq_def name false]
  rcases text with _ | ⟨c, rest⟩
  · simp only [h, ite_self]
  · simp only [h, ite_self]

/-- A label that is not at the cursor is looked for on later lines. -/
theorem find?_of_not_closing {name : List Char} (h : Heredoc.closingIndent? name text = none)
    (lineStart : Bool) :
    Heredoc.ClosingLabel.find? name lineStart text = Heredoc.ClosingLabel.ahead? name text := by
  rw [Heredoc.ClosingLabel.find?, Heredoc.ClosingLabel.here?, h, Option.map_none, ite_self]

/-- A fragment of a heredoc that reads the same if its first line counts as whole. -/
def FragmentAlike (name text : List Char) : Prop :=
  match fragment name false text with
  | (length, .label indent) =>
    Heredoc.dedentLast (text.take (length + indent)) true =
      Heredoc.dedentLast (text.take (length + indent)) false
  | (length, .interpolation) => length = 0 ∨
    Heredoc.dedentEarlier (text.take length) (indentAhead name (text.drop length)) true =
      Heredoc.dedentEarlier (text.take length) (indentAhead name (text.drop length)) false
  | (_, .source) => True

/-- A fragment of a nowdoc that reads the same if its first line counts as whole. -/
def NowdocAlike (name text : List Char) : Prop :=
  match Heredoc.ClosingLabel.ahead? name text with
  | some found =>
    Heredoc.dedentLast (text.take found.labelStart) true =
      Heredoc.dedentLast (text.take found.labelStart) false
  | none => True

/-- Steps that take the same characters and remember the same, but may differ in the token and the
diagnostics. -/
structure SameTaken (a b : Step) : Prop where
  length : a.length = b.length
  pos : 0 < b.length
  context : a.context = b.context

/-- The last fragment is taken as a whole, whatever becomes of it. -/
theorem closeStep_taken (settings : Settings) (context : Context) (isNowdoc lineStart : Bool)
    (source : List Char) :
    (closeStep settings context isNowdoc lineStart source).length = source.length ∧
      (closeStep settings context isNowdoc lineStart source).context =
        context.enter .closingLabel := by
  rw [closeStep_eq]
  dsimp only
  split <;> exact ⟨rfl, rfl⟩

theorem closeStep_sameTaken (settings : Settings) (context : Context) (isNowdoc : Bool)
    {source : List Char} (ne : source ≠ []) :
    SameTaken (closeStep settings context isNowdoc true source)
      (closeStep settings context isNowdoc false source) := by
  have whole := closeStep_taken settings context isNowdoc true source
  have rest := closeStep_taken settings context isNowdoc false source
  refine ⟨whole.1.trans rest.1.symm, ?_, whole.2.trans rest.2.symm⟩
  rw [rest.1]
  exact List.length_pos_iff.2 ne

/-- The last fragment is alike if it is dedented alike. -/
theorem closeStep_alike_iff {isNowdoc : Bool} {source : List Char} :
    ((closeStep settings context isNowdoc true source).token =
        (closeStep settings context isNowdoc false source).token ∧
      (closeStep settings context isNowdoc true source).errors =
        (closeStep settings context isNowdoc false source).errors) ↔
    Heredoc.dedentLast source true = Heredoc.dedentLast source false := by
  constructor
  · rintro ⟨token, errors⟩
    exact closeStep_inj token errors
  · intro same
    rw [closeStep_eq, closeStep_eq, same]
    exact ⟨rfl, rfl⟩

theorem take_ne_nil {length : Nat} (ne : text ≠ []) (pos : 0 < length) : text.take length ≠ [] := by
  rw [← List.length_pos_iff, List.length_take]
  have := List.length_pos_iff.2 ne
  omega

/-- In front of no closing label a step in a heredoc takes the same whether or not a line starts,
and makes the same of it if the fragment reads the same. -/
theorem heredocStep_alike (settings : Settings) (held : context.label = some label)
    (ne : text ≠ []) (h : Heredoc.closingIndent? label.toList text = none) :
    SameTaken (heredocStep settings context true text) (heredocStep settings context false text) ∧
    (((heredocStep settings context true text).token =
        (heredocStep settings context false text).token ∧
      (heredocStep settings context true text).errors =
        (heredocStep settings context false text).errors) ↔ FragmentAlike label.toList text) := by
  unfold heredocStep FragmentAlike
  rw [held]
  dsimp only
  rw [fragment_of_not_closing h]
  rcases eq : fragment label.toList false text with ⟨length, indent | _ | _⟩ <;> dsimp only
  · have closes := fragment_closesAt (congrArg Prod.snd eq : _ = FragmentEnd.label indent)
    rw [eq] at closes
    have taken := List.length_pos_iff.1 (Nat.zero_lt_of_lt closes.indent_lt_take)
    exact ⟨closeStep_sameTaken settings context false taken, closeStep_alike_iff⟩
  · by_cases zero : length = 0
    · rw [if_pos zero, if_pos zero]
      exact ⟨⟨rfl, (Interpolation.atStart context text).makes.1, rfl⟩,
        iff_of_true ⟨rfl, rfl⟩ (.inl zero)⟩
    · have taken := List.length_pos_iff.2 (take_ne_nil ne (Nat.pos_of_ne_zero zero))
      rw [if_neg zero, if_neg zero, or_iff_right zero]
      refine ⟨?_, ?_, ?_⟩
      · rw [fragmentStep_eq, fragmentStep_eq]
        exact ⟨rfl, taken, rfl⟩
      · rintro ⟨token, errors⟩
        exact fragmentStep_inj token errors
      · intro same
        rw [fragmentStep_eq, fragmentStep_eq, same]
        exact ⟨rfl, rfl⟩
  · exact ⟨⟨rfl, List.length_pos_iff.2 ne, rfl⟩, iff_of_true ⟨rfl, rfl⟩ trivial⟩

/-- In a nowdoc it is the text up to the label that has to read the same. -/
theorem nowdocStep_alike (settings : Settings) (held : context.label = some label)
    (ne : text ≠ []) (h : Heredoc.closingIndent? label.toList text = none) :
    SameTaken (nowdocStep settings context true text) (nowdocStep settings context false text) ∧
    (((nowdocStep settings context true text).token =
        (nowdocStep settings context false text).token ∧
      (nowdocStep settings context true text).errors =
        (nowdocStep settings context false text).errors) ↔ NowdocAlike label.toList text) := by
  unfold nowdocStep NowdocAlike
  rw [held]
  dsimp only
  rw [find?_of_not_closing h, find?_of_not_closing h]
  rcases ahead : Heredoc.ClosingLabel.ahead? label.toList text with _ | found <;> dsimp only
  · exact ⟨⟨rfl, List.length_pos_iff.2 ne, rfl⟩, iff_of_true ⟨rfl, rfl⟩ trivial⟩
  · obtain ⟨indent, labelStart, closes⟩ :=
      @Heredoc.ClosingLabel.ahead?_closesAt _ _ false _ ahead
    have taken := List.length_pos_iff.1 (Nat.zero_lt_of_lt closes.indent_lt_take)
    rw [labelStart]
    exact ⟨closeStep_sameTaken settings context true taken, closeStep_alike_iff⟩

/-! ## Bodies of either kind -/

/-- A step in a body. -/
def bodyStep (settings : Settings) (context : Context) (lineStart : Bool) (text : List Char) :
    Step :=
  if context.mode = .nowdoc then nowdocStep settings context lineStart text
  else heredocStep settings context lineStart text

/-- A text in a body that reads the same whether or not it is taken for the start of a line: no
closing label is in front, and the fragment in front loses the same indentation. -/
def ReadsAlike (mode : Mode) (name text : List Char) : Prop :=
  Heredoc.closingIndent? name text = none ∧
    if mode = .nowdoc then NowdocAlike name text else FragmentAlike name text

/-- In front of no closing label the same is taken in either kind of body, and the same is made of
it if the text reads alike. -/
theorem bodyStep_alike (settings : Settings) (held : context.label = some label)
    (ne : text ≠ []) (h : Heredoc.closingIndent? label.toList text = none) :
    SameTaken (bodyStep settings context true text) (bodyStep settings context false text) ∧
    (((bodyStep settings context true text).token =
        (bodyStep settings context false text).token ∧
      (bodyStep settings context true text).errors =
        (bodyStep settings context false text).errors) ↔
      ReadsAlike context.mode label.toList text) := by
  rw [ReadsAlike, and_iff_right h, bodyStep, bodyStep]
  by_cases mode : context.mode = .nowdoc
  · rw [if_pos mode, if_pos mode, if_pos mode]
    exact nowdocStep_alike settings held ne h
  · rw [if_neg mode, if_neg mode, if_neg mode]
    exact heredocStep_alike settings held ne h

/-- A closing label that is in front is reached at once. -/
theorem bodyStep_closing (settings : Settings) (held : context.label = some label) {indent : Nat}
    (h : Heredoc.closingIndent? label.toList text = some indent) :
    bodyStep settings context true text =
      { Step.silent context with length := indent }.enter .closingLabel := by
  obtain ⟨indentEq, -⟩ := Heredoc.closingIndent?_eq_some h
  have taken : text.take indent = text.takeWhile isIndent := by
    rw [indentEq]
    exact (List.prefix_iff_eq_take.1 (List.takeWhile_prefix _)).symm
  have blanks : ∀ c ∈ text.take indent, isIndent c := by
    rw [taken]
    exact List.all_eq_true.1 List.all_takeWhile
  have closes (isNowdoc : Bool) : closeStep settings context isNowdoc true (text.take indent) =
      { Step.silent context with length := indent }.enter .closingLabel := by
    rw [closeStep_eq, Heredoc.dedentLast_blanks blanks, taken, ← indentEq]
    rfl
  have front : fragment label.toList true text = (0, .label indent) := by
    rw [fragment.eq_def]
    rcases text with _ | ⟨c, rest⟩ <;> simp only [if_true, h]
  rw [bodyStep]
  split
  · rw [nowdocStep, held]
    dsimp only
    rw [Heredoc.ClosingLabel.find?, if_pos rfl, Heredoc.ClosingLabel.here?, h]
    exact closes true
  · rw [heredocStep, held]
    dsimp only
    rw [front]
    dsimp only
    rw [Nat.zero_add]
    exact closes false

/-- In the middle of a line a step without a token reaches a later line. -/
theorem bodyStep_silent (settings : Settings) (held : context.label = some label)
    (silent : (bodyStep settings context false text).token = none) :
    (text.takeWhile isIndent).length < (bodyStep settings context false text).length := by
  by_cases mode : context.mode = .nowdoc
  · rw [bodyStep, if_pos mode, nowdocStep, held] at silent ⊢
    dsimp only at silent ⊢
    rcases found : Heredoc.ClosingLabel.find? label.toList false text with _ | closing
    · rw [found] at silent
      cases silent
    · obtain ⟨indent, labelStart, closes⟩ := Heredoc.ClosingLabel.find?_closesAt found
      dsimp only
      rw [(closeStep_taken _ _ _ _ _).1, labelStart]
      exact closes.indent_lt_take
  · rw [bodyStep, if_neg mode, heredocStep, held] at silent ⊢
    dsimp only at silent ⊢
    rcases eq : fragment label.toList false text with ⟨length, indent | _ | _⟩ <;>
      rw [eq] at silent <;> dsimp only at silent ⊢
    · have closes := fragment_closesAt (congrArg Prod.snd eq : _ = FragmentEnd.label indent)
      rw [eq] at closes
      rw [(closeStep_taken _ _ _ _ _).1]
      exact closes.indent_lt_take
    · -- an interpolation and a fragment in front of one make tokens
      split at silent
      · exact absurd silent (Interpolation.atStart context text).makes.2
      · rw [fragmentStep_eq] at silent
        cases silent
    · cases silent

end HeredocBody

end PhpFrontEnd
