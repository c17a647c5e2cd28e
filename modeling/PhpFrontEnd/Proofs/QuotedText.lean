import PhpFrontEnd.Proofs.Decoding
import PhpFrontEnd.Proofs.Scan

/-!
# Texts written as strings

Any text can be written between quotes, with a backslash in front of each character that would
otherwise end the string, interpolate something or begin an escape. What is read there is the text
again, whatever comes after it (`Lexer.readsQuoted`).

Three readers have to agree on what a backslash covers, for none of them sees what the others do:
the search for the closing quote, the look-ahead for interpolations and the decoder. They do since
each of them passes over a character together with the backslash in front of it, and since no
character that is written without a backslash means anything to them. A brace is such a character:
it interpolates only before a dollar sign, and a dollar sign comes after its backslash.
-/

namespace PhpFrontEnd

/-! ## Writing -/

/-- A way to write texts between quotes. -/
structure Quoting where
  quote : Char
  /-- the characters that a backslash is put in front of -/
  special : List Char
  /-- the escapes that are known between the quotes -/
  mode : EscapeMode
  /-- whether variables are interpolated between the quotes -/
  interpolates : Bool
  backslash_mem : '\\' ∈ special
  quote_mem : quote ∈ special
  quote_not_mem : quote ∉ ['\\', '$', 'b', 'B']
  dollar_mem : interpolates → '$' ∈ special
  protects : special.all (Escape.protects mode)

namespace Quoting

def single : Quoting where
  quote := '\x27'
  special := ['\\', '\x27']
  mode := .single
  interpolates := false
  backslash_mem := by decide
  quote_mem := by decide
  quote_not_mem := by decide
  dollar_mem := by decide
  protects := by decide

def double : Quoting where
  quote := '"'
  special := ['\\', '"', '$']
  mode := .double
  interpolates := true
  backslash_mem := by decide
  quote_mem := by decide
  quote_not_mem := by decide
  dollar_mem := by decide
  protects := by decide

def backquote : Quoting where
  quote := '\x60'
  special := ['\\', '\x60', '$']
  mode := .backquote
  interpolates := true
  backslash_mem := by decide
  quote_mem := by decide
  quote_not_mem := by decide
  dollar_mem := by decide
  protects := by decide

/-- A text with a backslash in front of each special character. -/
def protect (q : Quoting) : List Char → List Char
  | [] => []
  | c :: text => if c ∈ q.special then '\\' :: c :: q.protect text else c :: q.protect text

/-- A text between quotes. -/
def write (q : Quoting) (text : List Char) : List Char := q.quote :: (q.protect text ++ [q.quote])

variable {q : Quoting} {c : Char} {text : List Char}

theorem protect_of_mem (h : c ∈ q.special) : q.protect (c :: text) = '\\' :: c :: q.protect text :=
  if_pos h

theorem protect_of_not_mem (h : c ∉ q.special) : q.protect (c :: text) = c :: q.protect text :=
  if_neg h

/-- Text without special characters is written as it is. -/
theorem protect_eq_self (h : ∀ c ∈ text, c ∉ q.special) : q.protect text = text := by
  induction text with
  | nil => rfl
  | cons c text ih =>
    rw [protect_of_not_mem (h c List.mem_cons_self),
      ih fun d mem => h d (List.mem_cons_of_mem _ mem)]

/-- A quote is none of the characters that mean something else. -/
theorem quote_ne (q : Quoting) {c : Char} (h : c ∈ ['\\', '$', 'b', 'B']) : q.quote ≠ c :=
  fun eq => q.quote_not_mem (eq ▸ h)

/-- A backslash is special, whatever the quote. -/
theorem ne_backslash (h : c ∉ q.special) : c ≠ '\\' :=
  fun eq => h (eq ▸ q.backslash_mem)

/-- The quote is special between its own kind. -/
theorem ne_quote (h : c ∉ q.special) : c ≠ q.quote :=
  fun eq => h (eq ▸ q.quote_mem)

/-! ## Finding the end -/

/-- A special character other than the backslash is not in front of protected text. -/
theorem not_nextIs_protect {d : Char} (h : d ∈ q.special) (ne : d ≠ '\\') (other : q.quote ≠ d)
    (text rest : List Char) : nextIs (· == d) (q.protect text ++ q.quote :: rest) = false := by
  rcases text with _ | ⟨c, text⟩
  · exact beq_eq_false_iff_ne.2 other
  by_cases mem : c ∈ q.special
  · rw [protect_of_mem mem]
    exact beq_eq_false_iff_ne.2 ne.symm
  · rw [protect_of_not_mem mem]
    exact beq_eq_false_iff_ne.2 fun eq => mem (eq ▸ h)

/-- A character without a backslash begins no interpolation. -/
theorem not_startsAt (h : c ∉ q.special) (text rest : List Char) :
    (q.interpolates && Interpolation.startsAt (c :: (q.protect text ++ q.quote :: rest))) =
      false := by
  rcases interpolates : q.interpolates with _ | _
  · rfl
  have dollar := q.dollar_mem interpolates
  have notDollar : c ≠ '$' := fun eq => h (eq ▸ dollar)
  rw [Bool.true_and]
  unfold Interpolation.startsAt
  split
  · rename_i eq
    exact absurd (List.cons.inj eq).1 notDollar
  · rename_i eq
    rw [← (List.cons.inj eq).2]
    exact not_nextIs_protect dollar (by decide) (q.quote_ne (by decide)) text rest
  · rfl

/-- Where a text is, there is neither a quote nor an interpolation in front. -/
theorem protect_front (q : Quoting) {text : List Char} (ne : text ≠ []) (rest : List Char) :
    nextIs (· == q.quote) (q.protect text ++ q.quote :: rest) = false ∧
      (q.interpolates && Interpolation.startsAt (q.protect text ++ q.quote :: rest)) = false := by
  obtain ⟨c, text, rfl⟩ := List.exists_cons_of_ne_nil ne
  by_cases mem : c ∈ q.special
  · rw [protect_of_mem mem]
    exact ⟨beq_eq_false_iff_ne.2 (q.quote_ne (by decide)).symm, Bool.and_false _⟩
  · rw [protect_of_not_mem mem]
    exact ⟨beq_eq_false_iff_ne.2 (ne_quote mem), not_startsAt mem text rest⟩

/-- A search for the end of protected text finds the quote that was written there. -/
theorem closingLength?_protect (q : Quoting) (text rest : List Char) :
    Quoted.closingLength? q.quote q.interpolates (q.protect text ++ q.quote :: rest) =
      some ((q.protect text).length + 1) := by
  fun_induction protect q text with
  | case1 =>
    rw [List.nil_append, Quoted.closingLength?, if_pos rfl]
    · rfl
    · exact q.quote_ne (by decide)
  | case2 c text mem ih =>
    rw [List.cons_append, List.cons_append, Quoted.closingLength?, ih]
    rfl
  | case3 c text mem ih =>
    rw [List.cons_append, Quoted.closingLength?, if_neg (ne_quote mem), not_startsAt mem, ih]
    · rfl
    · exact ne_backslash mem

/-- A run through protected text ends at that quote. -/
theorem runLength_protect (q : Quoting) (text rest : List Char) :
    Quoted.runLength q.quote q.interpolates (q.protect text ++ q.quote :: rest) =
      (q.protect text).length := by
  fun_induction protect q text with
  | case1 =>
    rw [List.nil_append, Quoted.runLength, if_pos rfl]
    · rfl
    · exact q.quote_ne (by decide)
  | case2 c text mem ih =>
    rw [List.cons_append, List.cons_append, Quoted.runLength, ih]
    rfl
  | case3 c text mem ih =>
    rw [List.cons_append, Quoted.runLength, if_neg (ne_quote mem), not_startsAt mem, ih]
    · rfl
    · exact ne_backslash mem

/-! ## Decoding -/

variable {rules : EscapeRules}

/-- Each character of a text is one piece of what is written. -/
theorem pieces_protect (mode : rules.mode = q.mode) (text : List Char) :
    BodyPiece.list rules (q.protect text) =
      text.map fun c => if c ∈ q.special then .escape (.char c) else .plain c := by
  fun_induction protect q text with
  | case1 => rfl
  | case2 c text mem ih =>
    have read : Escape.read? rules (c :: q.protect text) = some (.char c, 1) := by
      rw [Escape.read?, mode, if_pos (List.all_eq_true.1 q.protects c mem)]
    rw [List.map_cons, if_pos mem, ← ih, BodyPiece.list, BodyPiece.listAfter_backslash, read]
    rfl
  | case3 c text mem ih =>
    rw [List.map_cons, if_neg mem, ← ih, BodyPiece.list,
      BodyPiece.listAfter_plain _ (ne_backslash mem)]
    rfl

/-- Protected text is decoded to the text. -/
theorem octets_protect (mode : rules.mode = q.mode) (text : List Char) :
    rules.octets (q.protect text) = rules.encoding.encodeAll text := by
  have bytes (c : Char) : (if c ∈ q.special then BodyPiece.escape (.char c)
      else .plain c).bytes rules.encoding = rules.encoding.encode c := by
    split <;> rfl
  rw [EscapeRules.octets, pieces_protect mode, List.flatMap_map]
  simp only [bytes]
  rfl

/-- There are escapes in protected text if something had to be protected. -/
theorem any_isEscape_protect (mode : rules.mode = q.mode) (text : List Char) :
    (BodyPiece.list rules (q.protect text)).any BodyPiece.isEscape =
      text.any (· ∈ q.special) := by
  rw [pieces_protect mode, List.any_map]
  congr 1
  funext c
  by_cases mem : c ∈ q.special <;> simp [mem, BodyPiece.isEscape]

/-- A backslash names no code point here. -/
theorem any_isInvalid_protect (mode : rules.mode = q.mode) (text : List Char) :
    (BodyPiece.list rules (q.protect text)).any BodyPiece.isInvalid = false := by
  rw [pieces_protect mode, List.any_map, List.any_eq_false]
  intro c _
  by_cases mem : c ∈ q.special <;> simp [mem, BodyPiece.isInvalid, Escape.isInvalid]

/-- What is decoded is the text, or its bytes. -/
theorem decodeBody_protect (mode : rules.mode = q.mode) (fits : rules.encoding.Holds text) :
    (decodeBody rules (q.protect text)).invalidCodePoint = false ∧
      (decodeBody rules (q.protect text)).text =
        if rules.binary then .bytes (rules.encoding.encodeAll text) else .ofChars text := by
  have octets := octets_protect mode text
  rw [EscapeRules.octets] at octets
  unfold decodeBody
  rw [unescape_eq, any_isEscape_protect mode, any_isInvalid_protect mode, octets]
  rcases binary : rules.binary with _ | _
  · cases some : text.any (· ∈ q.special) with
    | true =>
      -- the bytes are built anew and read as text again
      simp [EscapeRules.textOf, binary, Encoding.decode?_encodeAll fits]
    | false =>
      have plain : q.protect text = text := protect_eq_self (by simpa using some)
      simp [plain]
  · simp [EscapeRules.textOf, binary]

/-! ## Complete literals -/

/-- What may stand in front of the quotes of a literal: nothing, or the letter of bytes. -/
def letters : List (List Char) := [[], ['b'], ['B']]

/-- There may be a letter in front of the quote, in either case. -/
theorem mem_letters {letter : List Char} (h : letter ∈ letters) :
    letter = [] ∨ letter = ['b'] ∨ letter = ['B'] := by
  simpa [letters] using h

/-- The bounds of a literal are its quotes. -/
theorem bounds_quoted {quote : Char} {letter : List Char} (h : letter ∈ letters)
    (notLetter : quote ≠ 'b' ∧ quote ≠ 'B') (body : List Char) :
    QuotedBounds.of quote (letter ++ quote :: (body ++ [quote])) =
      ⟨letter.length + 1, letter.length + 1 + body.length, !letter.isEmpty⟩ := by
  have plain : nextIs (fun c => c == 'b' || c == 'B') (quote :: (body ++ [quote])) = false := by
    change (quote == 'b' || quote == 'B') = false
    rw [beq_eq_false_iff_ne.2 notLetter.1, beq_eq_false_iff_ne.2 notLetter.2]
    rfl
  have length : (quote :: (body ++ [quote])).length = body.length + 2 := by simp
  have quoted : 2 ≤ (quote :: (body ++ [quote])).length ∧
      (quote :: (body ++ [quote])).head? = some quote ∧
      (quote :: (body ++ [quote])).getLast? = some quote := by
    refine ⟨by omega, rfl, ?_⟩
    rw [← List.cons_append, List.getLast?_concat]
  have marked {b : Char} (isLetter : (b == 'b' || b == 'B') = true) :
      QuotedBounds.of quote (b :: quote :: (body ++ [quote])) = ⟨2, body.length + 2, true⟩ := by
    have binary : nextIs (fun c => c == 'b' || c == 'B') (b :: quote :: (body ++ [quote])) = true :=
      isLetter
    unfold QuotedBounds.of
    dsimp only
    rw [binary, if_pos rfl]
    rw [List.drop_one, List.tail_cons, if_pos quoted, List.length_cons, length]
    congr 1
    omega
  rcases mem_letters h with rfl | rfl | rfl
  · unfold QuotedBounds.of
    dsimp only
    rw [List.nil_append, plain, if_neg Bool.false_ne_true, if_pos quoted, length, List.length_nil]
    congr 1 <;> omega
  · exact (marked rfl).trans (by congr 1; simp; omega)
  · exact (marked rfl).trans (by congr 1; simp; omega)

/-- The bounds of a literal are those of the protected text, and a letter makes it binary. -/
theorem bounds_write (q : Quoting) {letter : List Char} (h : letter ∈ letters) (text : List Char) :
    QuotedBounds.of q.quote (letter ++ q.write text) =
      ⟨letter.length + 1, letter.length + 1 + (q.protect text).length, !letter.isEmpty⟩ :=
  bounds_quoted h ⟨q.quote_ne (by decide), q.quote_ne (by decide)⟩ (q.protect text)

/-- Between its quotes a literal holds its body. -/
theorem body_quoted (quote : Char) (letter body : List Char) :
    ((letter ++ quote :: (body ++ [quote])).take (letter.length + 1 + body.length)).drop
      (letter.length + 1) = body := by
  have front : (letter ++ [quote]).length = letter.length + 1 := List.length_append
  have split : letter ++ quote :: (body ++ [quote]) =
      (letter ++ [quote]) ++ (body ++ [quote]) := by
    rw [List.append_assoc]
    rfl
  rw [split, ← front, List.take_length_add_append, List.take_left, List.drop_left]

/-- What is between the quotes is the protected text. -/
theorem body_write (q : Quoting) (letter text : List Char) :
    ((letter ++ q.write text).take (letter.length + 1 + (q.protect text).length)).drop
      (letter.length + 1) = q.protect text :=
  body_quoted q.quote letter (q.protect text)

/-- The closing quote of what is written is found, whatever follows. -/
theorem closes_write (q : Quoting) (letter text rest : List Char) :
    Quoted.closingLength? q.quote q.interpolates
        ((letter ++ q.write text ++ rest).drop (letter.length + 1)) =
      some ((q.protect text).length + 1) := by
  have front : (letter ++ [q.quote]).length = letter.length + 1 := List.length_append
  have split : letter ++ q.write text ++ rest =
      (letter ++ [q.quote]) ++ (q.protect text ++ q.quote :: rest) := by
    simp [write]
  rw [split, ← front, List.drop_left]
  exact closingLength?_protect q text rest

theorem take_write (q : Quoting) (letter text rest : List Char) :
    (letter ++ q.write text ++ rest).take (letter.length + 1 + ((q.protect text).length + 1)) =
      letter ++ q.write text := by
  refine List.take_left' ?_
  simp [write]
  omega

variable {settings : Settings} {context : Context} {letter : List Char}

/-- A step at a literal takes the literal, and its token has the text as its value. -/
structure Takes (settings : Settings) (context : Context) (quote : Quote) (letter text : List Char)
    (literal : List Char) (step : Step) : Prop where
  token : step.token = some (.quotedLiteral, .literal (if letter.isEmpty then .ofChars text
    else .bytes (settings.encoding.encodeAll text)) quote)
  length : step.length = literal.length
  context_eq : step.context = context
  errors : step.errors = []

/-- A literal as it was written is one token with the text as its value. -/
theorem emitLiteral_write (q : Quoting) (quote : Quote) (h : letter ∈ letters)
    (fits : settings.encoding.Holds text) :
    Takes settings context quote letter text (letter ++ q.write text)
      (Quoted.emitLiteral settings context q.quote quote q.mode (letter ++ q.write text)) := by
  unfold Quoted.emitLiteral
  rw [bounds_write q h]
  dsimp only
  rw [body_write]
  obtain ⟨valid, value⟩ :=
    @decodeBody_protect q text (settings.escapeRules q.mode !letter.isEmpty) rfl fits
  refine ⟨?_, rfl, rfl, ?_⟩
  · unfold Step.emitLiteral
    dsimp only
    rw [value]
    cases letter <;> rfl
  · simp [Step.emitLiteral, Decoded.errors, valid]

end Quoting

/-- How a literal is written in its quotes. -/
def Quote.quoting : Quote → Quoting
  | .single => .single
  | .double => .double

namespace Quoting

variable {settings : Settings} {context : Context} {letter : List Char} {text : List Char}

/-- Single quotes are taken up to the one that was written last. -/
theorem singleStep_write (settings : Settings) (context : Context) (letter text rest : List Char) :
    Quoted.singleStep settings context (letter ++ single.write text ++ rest) letter.length =
      Quoted.emitLiteral settings context '\x27' .single .single (letter ++ single.write text) := by
  have closes : Quoted.closingLength? '\x27' false _ = _ := single.closes_write letter text rest
  rw [Quoted.singleStep, closes]
  dsimp only
  rw [take_write]

/-- Double quotes are taken up to the one that was written last. -/
theorem doubleStep_write (settings : Settings) (context : Context) (letter text rest : List Char) :
    Quoted.doubleStep settings context (letter ++ double.write text ++ rest) letter.length =
      Quoted.emitLiteral settings context '"' .double .double (letter ++ double.write text) := by
  have closes : Quoted.closingLength? '"' true _ = _ := double.closes_write letter text rest
  rw [Quoted.doubleStep, closes]
  dsimp only
  rw [take_write]

/-- In code a literal that was written is complete. -/
theorem step_write (quote : Quote) (h : letter ∈ letters) (start : Nat) (text rest : List Char) :
    Code.step settings context start (letter ++ quote.quoting.write text ++ rest) =
      Quoted.emitLiteral settings context quote.quoting.quote quote quote.quoting.mode
        (letter ++ quote.quoting.write text) := by
  cases quote with
  | single =>
    refine Eq.trans ?_ (singleStep_write settings context letter text rest)
    rcases mem_letters h with rfl | rfl | rfl <;> rfl
  | double =>
    refine Eq.trans ?_ (doubleStep_write settings context letter text rest)
    rcases mem_letters h with rfl | rfl | rfl <;> rfl

end Quoting

/-! ## Reading -/

namespace Lexer

/-- Tokens that are made one after the other without a problem. -/
inductive Reads : Lexer → List Token → Lexer → Prop where
  | done (lexer : Lexer) : Reads lexer [] lexer
  | token {lexer later : Lexer} {tokens : List Token} (clean : lexer.next.diagnostics = [])
    (h : Reads lexer.next.lexer tokens later) : Reads lexer (lexer.next.token :: tokens) later

/-- The first tokens, after which the lexer remembers what it did and the rest is left. -/
def ReadsBack (lexer : Lexer) (tokens : List Token) (rest : List Char) : Prop :=
  ∃ later, lexer.Reads tokens later ∧ later.context = lexer.context ∧ later.rest = rest

variable {lexer later : Lexer} {kind : TokenKind} {value : TokenValue} {tokens : List Token}

/-- A lexer reads tokens if its step makes the first and the others come after it. -/
theorem Reads.of_step (token : lexer.step.token = some (kind, value))
    (errors : lexer.step.errors = []) (h : lexer.advance.Reads tokens later) :
    lexer.Reads (⟨kind, lexer.span, value⟩ :: tokens) later := by
  have eq := next_of_token token
  have first : lexer.next.token = ⟨kind, lexer.span, value⟩ := by rw [eq]
  rw [← first]
  refine .token ?_ ?_
  · rw [eq]
    change lexer.found = []
    rw [found, errors]
    rfl
  · rw [eq]
    exact h

theorem step_of_code (mode : lexer.context.mode = .code) (ne : lexer.rest ≠ []) :
    lexer.step = Code.step lexer.settings lexer.context lexer.offset lexer.rest := by
  rw [step_eq ne, mode]

theorem step_of_backquoted (mode : lexer.context.mode = .backquoted) (ne : lexer.rest ≠ []) :
    lexer.step = Quoted.interpolatedStep lexer.settings lexer.context '\x60' .backquote .backquote
      lexer.rest := by
  rw [step_eq ne, mode]

/-- The tokens of a text between backquotes; an empty text makes none. -/
def backquotedTokens (offset : Nat) (text : List Char) : List Token :=
  let written := Quoting.backquote.protect text
  let run : Token :=
    ⟨.textRun, ⟨offset + 1, written.length⟩, .run (.ofChars text) (String.ofList written)⟩
  [⟨.backquote, ⟨offset, 1⟩, .none⟩] ++ (if text.isEmpty then [] else [run]) ++
    [⟨.backquote, ⟨offset + 1 + written.length, 1⟩, .none⟩]

/-- What a lexer reads where a text was written between quotes. -/
structure ReadsQuoted (lexer : Lexer) (text rest : List Char) : Prop where
  literal : ∀ quote : Quote,
    { lexer with rest := quote.quoting.write text ++ rest }.ReadsBack
      [⟨.quotedLiteral, ⟨lexer.offset, (quote.quoting.write text).length⟩,
        .literal (.ofChars text) quote⟩] rest
  binary : ∀ quote : Quote, ∀ letter ∈ ['b', 'B'],
    { lexer with rest := letter :: quote.quoting.write text ++ rest }.ReadsBack
      [⟨.quotedLiteral, ⟨lexer.offset, (letter :: quote.quoting.write text).length⟩,
        .literal (.bytes (lexer.settings.encoding.encodeAll text)) quote⟩] rest
  backquoted :
    { lexer with rest := Quoting.backquote.write text ++ rest }.ReadsBack
      (backquotedTokens lexer.offset text) rest

/-- A literal is read back as one token, with its quote and its letter. -/
theorem readsBack_literal (mode : lexer.context.mode = .code) {letter text rest : List Char}
    (h : letter ∈ Quoting.letters) (fits : lexer.settings.encoding.Holds text) (quote : Quote)
    (front : lexer.rest = letter ++ quote.quoting.write text ++ rest) :
    lexer.ReadsBack
      [⟨.quotedLiteral, ⟨lexer.offset, (letter ++ quote.quoting.write text).length⟩,
        .literal (if letter.isEmpty then .ofChars text
          else .bytes (lexer.settings.encoding.encodeAll text)) quote⟩] rest := by
  have ne : lexer.rest ≠ [] := by simp [front, Quoting.write]
  have step := step_of_code mode ne
  rw [front, Quoting.step_write quote h] at step
  obtain ⟨token, length, context, errors⟩ :=
    @Quoting.emitLiteral_write text lexer.settings lexer.context letter quote.quoting quote h fits
  rw [← step] at token length context errors
  have first := Reads.of_step token errors (.done _)
  rw [span, length] at first
  refine ⟨_, first, context, ?_⟩
  change lexer.rest.drop _ = rest
  rw [length, front, List.drop_left]

/-! ### Backquotes -/

/-- The closing backquote returns to what is around it. -/
theorem reads_closing {rest : List Char} (mode : lexer.context.mode = .backquoted)
    (front : lexer.rest = '\x60' :: rest) :
    ∃ later, lexer.Reads [⟨.backquote, ⟨lexer.offset, 1⟩, .none⟩] later ∧
      later.context = lexer.context.pop ∧ later.rest = rest := by
  have step : lexer.step = (Step.emit lexer.context .backquote 1).pop := by
    rw [step_of_backquoted mode (by rw [front]; exact List.cons_ne_nil _ _), front]
    rfl
  have token : lexer.step.token = some (.backquote, .none) := congrArg Step.token step
  have first := Reads.of_step token (congrArg Step.errors step) (.done _)
  rw [span, step] at first
  refine ⟨_, first, congrArg Step.context step, ?_⟩
  change lexer.rest.drop _ = rest
  rw [step, front]
  rfl

/-- All of a text between backquotes is one run. -/
theorem step_of_protect {text rest : List Char} (mode : lexer.context.mode = .backquoted)
    (ne : text ≠ []) (front : lexer.rest = Quoting.backquote.protect text ++ '\x60' :: rest) :
    lexer.step = .emitRun lexer.context (Quoting.backquote.protect text)
      (decodeBody (lexer.settings.escapeRules .backquote false)
        (Quoting.backquote.protect text)) := by
  obtain ⟨noQuote, noStart⟩ := Quoting.backquote.protect_front ne rest
  have noStart : Interpolation.startsAt lexer.rest = false := front ▸ noStart
  have noQuote : nextIs (· == '\x60') lexer.rest = false := front ▸ noQuote
  have length : Quoted.runLength '\x60' true lexer.rest = _ :=
    front ▸ Quoting.backquote.runLength_protect text rest
  have notNil : lexer.rest ≠ [] := by
    rw [front]
    exact List.append_ne_nil_of_right_ne_nil _ (List.cons_ne_nil _ _)
  rw [step_of_backquoted mode notNil, Quoted.interpolatedStep, noQuote, noStart, length, front,
    List.take_left]
  rfl

/-- A text between backquotes is read up to and with the closing one. -/
theorem reads_backquoted {text rest : List Char} (mode : lexer.context.mode = .backquoted)
    (fits : lexer.settings.encoding.Holds text)
    (front : lexer.rest = Quoting.backquote.protect text ++ '\x60' :: rest) :
    ∃ later, lexer.Reads
        ((if text.isEmpty then [] else
          [(⟨.textRun, ⟨lexer.offset, (Quoting.backquote.protect text).length⟩,
            .run (.ofChars text) (String.ofList (Quoting.backquote.protect text))⟩ : Token)]) ++
          [⟨.backquote, ⟨lexer.offset + (Quoting.backquote.protect text).length, 1⟩, .none⟩])
        later ∧ later.context = lexer.context.pop ∧ later.rest = rest := by
  by_cases nil : text = []
  · subst nil
    exact reads_closing mode front
  have step := step_of_protect mode nil front
  obtain ⟨valid, value⟩ := @Quoting.decodeBody_protect .backquote text
    (lexer.settings.escapeRules .backquote false) rfl fits
  have same : lexer.advance.context = lexer.context := congrArg Step.context step
  have taken : lexer.step.length = (Quoting.backquote.protect text).length :=
    congrArg Step.length step
  have left : lexer.advance.rest = '\x60' :: rest := by
    change lexer.rest.drop _ = _
    rw [taken, front, List.drop_left]
  have token : lexer.step.token = some (.textRun,
      .run (.ofChars text) (String.ofList (Quoting.backquote.protect text))) := by
    rw [step, Step.emitRun, value]
    rfl
  have errors : lexer.step.errors = [] := by
    rw [step, Step.emitRun, Decoded.errors, valid]
    rfl
  obtain ⟨later, closing, context, after⟩ := reads_closing (same ▸ mode) left
  have all := Reads.of_step token errors closing
  have place : lexer.advance.offset = lexer.offset + (Quoting.backquote.protect text).length :=
    congrArg (lexer.offset + ·) taken
  rw [place, span, taken] at all
  refine ⟨later, ?_, by rw [context, same], after⟩
  simpa [nil] using all

/-- Text in backquotes is read back as a run between two quotes, or as two quotes. -/
theorem readsBack_backquoted (mode : lexer.context.mode = .code) {text rest : List Char}
    (fits : lexer.settings.encoding.Holds text)
    (front : lexer.rest = Quoting.backquote.write text ++ rest) :
    lexer.ReadsBack (backquotedTokens lexer.offset text) rest := by
  have ne : lexer.rest ≠ [] := by simp [front, Quoting.write]
  have step : lexer.step = (Step.emit lexer.context .backquote 1).push .backquoted := by
    rw [step_of_code mode ne, front]
    rfl
  have inside : lexer.advance.context = lexer.context.push .backquoted :=
    congrArg Step.context step
  have left : lexer.advance.rest = Quoting.backquote.protect text ++ '\x60' :: rest := by
    change lexer.rest.drop _ = _
    rw [step, front]
    exact List.append_assoc _ _ _
  have place : lexer.advance.offset = lexer.offset + 1 :=
    congrArg (lexer.offset + Step.length ·) step
  have inBackquotes : lexer.advance.context.mode = .backquoted := by rw [inside]; rfl
  obtain ⟨later, reads, context, after⟩ := reads_backquoted inBackquotes fits left
  have token : lexer.step.token = some (.backquote, .none) := congrArg Step.token step
  have all := Reads.of_step token (congrArg Step.errors step) reads
  rw [place, span, step] at all
  exact ⟨later, all, by rw [context, inside]; rfl, after⟩

/-- A text that was written between quotes in code is read back, whatever follows: as one literal
between single or double quotes, as its bytes after a letter, and between backquotes as one run. The
encoding of the source has to have bytes for it. -/
theorem readsQuoted (mode : lexer.context.mode = .code) {text : List Char}
    (fits : lexer.settings.encoding.Holds text) (rest : List Char) :
    lexer.ReadsQuoted text rest := by
  refine ⟨fun quote => ?_, fun quote letter mem => ?_, ?_⟩
  · exact @readsBack_literal { lexer with rest := quote.quoting.write text ++ rest } mode [] text
      rest List.mem_cons_self fits quote rfl
  · have isLetter : [letter] ∈ Quoting.letters := by
      simpa [Quoting.letters] using mem
    exact @readsBack_literal { lexer with rest := letter :: quote.quoting.write text ++ rest } mode
      [letter] text rest isLetter fits quote rfl
  · exact @readsBack_backquoted { lexer with rest := Quoting.backquote.write text ++ rest } mode
      text rest fits rfl

/-- Backslashes, quotes, a brace before a dollar sign, escapes, a line feed, NUL and a letter above
ASCII, in the code of an interpolation in a Latin-1 source. -/
theorem readsQuoted_escapes :
    (start { encoding := .latin1, codePoints := true } [] 7
        { mode := .code, enclosing := [.doubleQuoted, .code] }).context.mode = .code ∧
      Encoding.latin1.Holds "\\\\'\"`\x7b$a\x7d\\u\x7b41\x7d\n\x00\u00e9\\".toList ∧
      (start { encoding := .latin1, codePoints := true } [] 7
        { mode := .code, enclosing := [.doubleQuoted, .code] }).ReadsQuoted
          "\\\\'\"`\x7b$a\x7d\\u\x7b41\x7d\n\x00\u00e9\\".toList "'.x".toList := by
  have fits : Encoding.latin1.Holds "\\\\'\"`\x7b$a\x7d\\u\x7b41\x7d\n\x00\u00e9\\".toList := by
    have small : "\\\\'\"`\x7b$a\x7d\\u\x7b41\x7d\n\x00\u00e9\\".toList.all
      (fun c => decide (c.toNat ≤ 0xFF)) := by decide
    exact fun _ c mem => of_decide_eq_true (List.all_eq_true.1 small c mem)
  exact ⟨rfl, fits, readsQuoted rfl fits _⟩

end Lexer

end PhpFrontEnd
