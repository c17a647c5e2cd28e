import PhpFrontEnd.Proofs.LineEndsInText
import PhpFrontEnd.Proofs.NowdocText
import PhpFrontEnd.Proofs.Reports

/-!
# Two ways to read a string

A complete string without interpolations is one token. A lexer that is already inside of a string
reads the same characters in pieces: a run of text, if there is any, and the closing quote. Both
have to find the same end. What decides that is a walk over the body which passes every backslash
together with the character after it (`Walk`): the string is complete if the walk comes to its quote
before anything is interpolated.

So it makes no difference to the value of a string, and to the problems with it, from where it is
read, and a string is read in pieces just if something is interpolated before the quote or there is
no quote (`Lexer.strings_agree`).
-/

namespace PhpFrontEnd

/-! ## Walks over a text -/

/-- A walk from one place of a text to a later one. A backslash is passed together with the
character after it, and any other character by itself, unless the walk stops there. -/
inductive Walk (stops : List Char → Bool) : List Char → List Char → Prop where
  | here (text : List Char) : Walk stops text text
  | escape {c : Char} {rest back : List Char} (walk : Walk stops rest back) :
      Walk stops ('\\' :: c :: rest) back
  | char {c : Char} {rest back : List Char} (ne : c ≠ '\\') (free : stops (c :: rest) = false)
      (walk : Walk stops rest back) : Walk stops (c :: rest) back

/-- A walk that does not stop before it comes to a certain place. -/
def Reaches (stops place : List Char → Bool) (text : List Char) : Prop :=
  ∃ back, Walk stops text back ∧ place back

namespace Reaches

variable {stops place : List Char → Bool} {c : Char} {rest : List Char}

theorem nil_iff : Reaches stops place [] ↔ place [] := by
  constructor
  · rintro ⟨back, walk, h⟩
    cases walk
    exact h
  · intro h
    exact ⟨[], .here [], h⟩

theorem backslash_iff : Reaches stops place ['\\'] ↔ place ['\\'] := by
  constructor
  · rintro ⟨back, walk, h⟩
    cases walk with
    | here => exact h
    | char ne => exact absurd rfl ne
  · intro h
    exact ⟨_, .here _, h⟩

/-- A walk passes an escape as a whole. -/
theorem escape_iff : Reaches stops place ('\\' :: c :: rest) ↔
    place ('\\' :: c :: rest) ∨ Reaches stops place rest := by
  constructor
  · rintro ⟨back, walk, h⟩
    cases walk with
    | here => exact .inl h
    | escape walk => exact .inr ⟨back, walk, h⟩
    | char ne => exact absurd rfl ne
  · rintro (h | ⟨back, walk, h⟩)
    · exact ⟨_, .here _, h⟩
    · exact ⟨back, .escape walk, h⟩

/-- A walk passes any other character at which it need not stop. -/
theorem char_iff (ne : c ≠ '\\') : Reaches stops place (c :: rest) ↔
    place (c :: rest) ∨ stops (c :: rest) = false ∧ Reaches stops place rest := by
  constructor
  · rintro ⟨back, walk, h⟩
    cases walk with
    | here => exact .inl h
    | escape => exact absurd rfl ne
    | char _ free walk => exact .inr ⟨free, back, walk, h⟩
  · rintro (h | ⟨free, back, walk, h⟩)
    · exact ⟨_, .here _, h⟩
    · exact ⟨back, .char ne free walk, h⟩

end Reaches

/-! ## Where strings end -/

namespace Quote

/-- The character before and after a string. -/
def char (quote : Quote) : Char := quote.quoting.quote

/-- Whether variables are interpolated. -/
def interpolates (quote : Quote) : Bool := quote.quoting.interpolates

/-- The mode inside of a string. -/
def mode : Quote → Mode
  | .single => .singleQuoted
  | .double => .doubleQuoted

/-- The token of a quote that is read by itself. -/
def kind : Quote → TokenKind
  | .single => .singleQuote
  | .double => .doubleQuote

/-- A run of text ends at the quote, and where something is interpolated. -/
def stops (quote : Quote) (text : List Char) : Bool :=
  nextIs (· == quote.char) text || (quote.interpolates && Interpolation.startsAt text)

/-- No quote is a backslash. -/
theorem ne_backslash (quote : Quote) : quote.char ≠ '\\' := by
  cases quote <;> decide

end Quote

namespace Quoted

open Interpolation

variable {quote : Quote} {text body : List Char}

theorem startsAt_cons (c : Char) (text : List Char) : startsAt (c :: text) =
    if c = '$' then nextIs (fun d => isLabelStart d || d == '\x7b') text
    else if c = '\x7b' then nextIs (· == '$') text else false := by
  unfold startsAt
  split
  · rename_i eq
    obtain ⟨rfl, rfl⟩ := List.cons.inj eq
    rw [if_pos rfl]
  · rename_i eq
    obtain ⟨rfl, rfl⟩ := List.cons.inj eq
    rw [if_neg (by decide), if_pos rfl]
  · rename_i notDollar notBrace
    have dollar : c ≠ '$' := fun eq => notDollar text (by rw [eq])
    have brace : c ≠ '\x7b' := fun eq => notBrace text (by rw [eq])
    rw [if_neg dollar, if_neg brace]

/-- A character without the property ends what is next. -/
theorem nextIs_append_of_not (p : Char → Bool) {d : Char} (h : p d = false)
    (body rest : List Char) : nextIs p (body ++ d :: rest) = nextIs p body := by
  cases body with
  | nil => exact h
  | cons => rfl

/-- A quote makes no difference to what begins in front of it. -/
theorem startsAt_append (quote : Quote) (c : Char) (body rest : List Char) :
    startsAt (c :: (body ++ quote.char :: rest)) = startsAt (c :: body) := by
  have noLabel : (isLabelStart quote.char || quote.char == '\x7b') = false := by
    cases quote <;> decide
  have noDollar : (quote.char == '$') = false := by cases quote <;> decide
  rw [startsAt_cons, startsAt_cons, nextIs_append_of_not _ noLabel,
    nextIs_append_of_not (· == '$') noDollar]

/-- All of a body is text if a walk passes it without stopping. -/
theorem runLength_of_walk (walk : Walk quote.stops body []) (rest : List Char) :
    runLength quote.char quote.interpolates (body ++ quote.char :: rest) = body.length := by
  generalize ends : ([] : List Char) = back at walk
  induction walk with
  | here =>
    rw [← ends, List.nil_append, runLength_cons quote.ne_backslash, if_pos rfl]
    rfl
  | escape walk ih =>
    rw [List.cons_append, List.cons_append, runLength, ih ends]
    rfl
  | @char c body back ne free walk ih =>
    obtain ⟨other, starts⟩ : c ≠ quote.char ∧
        (quote.interpolates && startsAt (c :: body)) = false := by
      simpa [Quote.stops, nextIs] using free
    rw [List.cons_append, runLength_cons ne, if_neg other, startsAt_append, starts,
      if_neg Bool.false_ne_true, ih ends]
    rfl

/-- In front of a body that a walk passes there is neither a quote nor an interpolation. -/
theorem front_of_walk (walk : Walk quote.stops body []) (ne : body ≠ []) (rest : List Char) :
    nextIs (· == quote.char) (body ++ quote.char :: rest) = false ∧
      (quote.interpolates && startsAt (body ++ quote.char :: rest)) = false := by
  cases walk with
  | here => exact absurd rfl ne
  | escape walk =>
    refine ⟨beq_eq_false_iff_ne.2 quote.ne_backslash.symm, ?_⟩
    rw [List.cons_append, startsAt_cons, if_neg (by decide), if_neg (by decide), Bool.and_false]
  | char notBackslash free walk =>
    rw [Quote.stops, Bool.or_eq_false_iff] at free
    rw [List.cons_append, startsAt_append]
    exact free

/-- The end of a body is found after a walk through it. -/
theorem closingLength?_of_walk (walk : Walk quote.stops body []) (rest : List Char) :
    closingLength? quote.char quote.interpolates (body ++ quote.char :: rest) =
      some (body.length + 1) := by
  rw [closingLength?_eq, runLength_of_walk walk, List.drop_left, if_pos]
  exact beq_self_eq_true quote.char

theorem startsAt_backslash (text : List Char) : startsAt ('\\' :: text) = false := by
  rw [startsAt_cons, if_neg (by decide), if_neg (by decide)]

/-- A string has no end as one token if something is interpolated before its quote, or if there is
no quote. -/
theorem closingLength?_eq_none_iff (text : List Char) :
    closingLength? '"' true text = none ↔
      Reaches (nextIs (· == '"')) startsAt text ∨
        ¬Reaches (fun _ => false) (nextIs (· == '"')) text := by
  fun_induction closingLength? '"' true text with
  | case1 => simp [Reaches.nil_iff, nextIs]
  | case2 => simp [Reaches.backslash_iff, nextIs]
  | case3 c text ih =>
    rw [Option.map_eq_none_iff, ih, Reaches.escape_iff, Reaches.escape_iff, startsAt_backslash]
    simp [nextIs]
  | case4 text escape =>
    rw [Reaches.char_iff escape, Reaches.char_iff escape, startsAt_cons]
    simp [nextIs]
  | case5 c text escape other starts =>
    rw [Reaches.char_iff escape, Reaches.char_iff escape]
    simp only [Bool.true_and] at starts
    simp [starts]
  | case6 c text escape other starts ih =>
    rw [Option.map_eq_none_iff, ih, Reaches.char_iff escape, Reaches.char_iff escape]
    simp only [Bool.true_and] at starts
    simp [starts, nextIs, other]

end Quoted

/-! ## Tokens and the problems with them -/

namespace Lexer

variable {lexer : Lexer} {kind : TokenKind} {value : TokenValue} {tokens : List Token}
  {problems : List LexError.Variant} {context : Context} {rest : List Char}

/-- The first tokens of a lexer and the kinds of problems that are found with them, and what the
lexer remembers and has left after them. -/
structure ReadsTo (lexer : Lexer) (tokens : List Token) (problems : List LexError.Variant)
    (context : Context) (rest : List Char) : Prop where
  tokens_eq : (lexer.calls tokens.length).map (·.token) = tokens
  problems_eq :
    ((lexer.calls tokens.length).flatMap (·.diagnostics)).map (·.error.variant) = problems
  context_eq : (lexer.after tokens.length).context = context
  rest_eq : (lexer.after tokens.length).rest = rest

namespace ReadsTo

theorem done (lexer : Lexer) : lexer.ReadsTo [] [] lexer.context lexer.rest := ⟨rfl, rfl, rfl, rfl⟩

/-- A token is read in front of what the lexer one step further on reads. -/
theorem token (token : lexer.step.token = some (kind, value))
    (h : lexer.advance.ReadsTo tokens problems context rest) :
    lexer.ReadsTo (⟨kind, lexer.span, value⟩ :: tokens)
      (lexer.step.errors.map (·.variant) ++ problems) context rest := by
  obtain ⟨tokens_eq, problems_eq, context_eq, rest_eq⟩ := h
  have found : lexer.found.map (·.error.variant) = lexer.step.errors.map (·.variant) := by
    rw [Lexer.found, List.map_map]
    rfl
  refine ⟨?_, ?_, ?_, ?_⟩
  · rw [List.length_cons, calls, next_of_token token, List.map_cons, tokens_eq]
  · rw [List.length_cons, calls, next_of_token token, List.flatMap_cons, List.map_append,
      problems_eq, found]
  · rw [List.length_cons, after, next_of_token token]
    exact context_eq
  · rw [List.length_cons, after, next_of_token token]
    exact rest_eq

end ReadsTo

/-! ## The two ways -/

variable {quote : Quote} {body : List Char}

/-- The value of a body between quotes. -/
def bodyValue (settings : Settings) (quote : Quote) (body : List Char) : Decoded :=
  decodeBody (settings.escapeRules quote.quoting.mode false) body

/-- A literal is made of what is between its quotes. -/
theorem emitLiteral_eq (settings : Settings) (context : Context) (quote : Quote)
    (body : List Char) :
    Quoted.emitLiteral settings context quote.char quote quote.quoting.mode
        (quote.char :: (body ++ [quote.char])) =
      .emitLiteral context quote (quote.char :: (body ++ [quote.char]))
        (bodyValue settings quote body) := by
  have notLetter : quote.char ≠ 'b' ∧ quote.char ≠ 'B' := by cases quote <;> decide
  have bounds := @Quoting.bounds_quoted quote.char [] List.mem_cons_self notLetter body
  rw [List.nil_append] at bounds
  rw [Quoted.emitLiteral, bounds]
  exact congrArg (fun body => Step.emitLiteral context quote _ (bodyValue settings quote body))
    (Quoting.body_quoted quote.char [] body)

/-- A complete string in code is one literal. -/
theorem step_literal (mode : lexer.context.mode = .code) (walk : Walk quote.stops body [])
    (front : lexer.rest = quote.char :: (body ++ quote.char :: rest)) :
    lexer.step = .emitLiteral lexer.context quote (quote.char :: (body ++ [quote.char]))
      (bodyValue lexer.settings quote body) := by
  have literal : (quote.char :: (body ++ quote.char :: rest)).take (0 + 1 + (body.length + 1)) =
      quote.char :: (body ++ [quote.char]) := by
    rw [Nat.zero_add, Nat.add_comm 1, List.take_succ_cons, List.take_length_add_append]
    rfl
  have closes := Quoted.closingLength?_of_walk walk rest
  rw [step_of_code mode (by rw [front]; exact List.cons_ne_nil _ _), front, ← emitLiteral_eq,
    ← literal]
  cases quote with
  | single =>
    have read : Quoted.closingLength? '\x27' false (body ++ '\x27' :: rest) = _ := closes
    change Quoted.singleStep _ _ ('\x27' :: (body ++ '\x27' :: rest)) 0 = _
    rw [Quoted.singleStep, List.drop_succ_cons, List.drop_zero, read]
    rfl
  | double =>
    have read : Quoted.closingLength? '"' true (body ++ '"' :: rest) = _ := closes
    change Quoted.doubleStep _ _ ('"' :: (body ++ '"' :: rest)) 0 = _
    rw [Quoted.doubleStep, List.drop_succ_cons, List.drop_zero, read]
    rfl

/-- The step inside of a string. -/
theorem step_inside (mode : lexer.context.mode = quote.mode) (ne : lexer.rest ≠ []) :
    lexer.step =
      match quote with
      | .single => Quoted.singleQuotedStep lexer.settings lexer.context lexer.rest
      | .double => Quoted.interpolatedStep lexer.settings lexer.context '"' .doubleQuote .double
          lexer.rest := by
  have step := step_eq ne
  rw [mode] at step
  rw [step]
  cases quote <;> rfl

/-- Inside of a string the body is a run of text. -/
theorem step_run (mode : lexer.context.mode = quote.mode) (walk : Walk quote.stops body [])
    (nonempty : body ≠ []) (front : lexer.rest = body ++ quote.char :: rest) :
    lexer.step = .emitRun lexer.context body (bodyValue lexer.settings quote body) := by
  have ne : lexer.rest ≠ [] := by
    rw [front]
    exact List.append_ne_nil_of_right_ne_nil _ (List.cons_ne_nil _ _)
  obtain ⟨noQuote, noStart⟩ := Quoted.front_of_walk walk nonempty rest
  have length := Quoted.runLength_of_walk walk rest
  rw [← front] at noQuote noStart length
  have run : lexer.rest.take body.length = body := by rw [front, List.take_left]
  rw [step_inside mode ne]
  cases quote with
  | single =>
    have length : Quoted.runLength '\x27' false lexer.rest = _ := length
    have noQuote : nextIs (· == '\x27') lexer.rest = false := noQuote
    dsimp only
    rw [Quoted.singleQuotedStep, noQuote, length, run]
    rfl
  | double =>
    have length : Quoted.runLength '"' true lexer.rest = _ := length
    have noQuote : nextIs (· == '"') lexer.rest = false := noQuote
    have noStart : Interpolation.startsAt lexer.rest = false := noStart
    dsimp only
    rw [Quoted.interpolatedStep, noQuote, noStart, length, run]
    rfl

/-- The quote after it closes the string. -/
theorem step_closing (mode : lexer.context.mode = quote.mode)
    (front : lexer.rest = quote.char :: rest) :
    lexer.step = (Step.emit lexer.context quote.kind 1).pop := by
  rw [step_inside mode (by rw [front]; exact List.cons_ne_nil _ _), front]
  cases quote with
  | single => rfl
  | double => rfl

/-- The tokens from inside of a string up to its closing quote. An empty body makes none. -/
def pieces (quote : Quote) (offset : Nat) (body : List Char) (text : Text) : List Token :=
  (if body = [] then [] else [⟨.textRun, ⟨offset, body.length⟩, .run text (String.ofList body)⟩]) ++
    [⟨quote.kind, ⟨offset + body.length, 1⟩, .none⟩]

/-- The closing quote goes back to what encloses the string. -/
theorem readsTo_closing (mode : lexer.context.mode = quote.mode)
    (front : lexer.rest = quote.char :: rest) :
    lexer.ReadsTo [⟨quote.kind, ⟨lexer.offset, 1⟩, .none⟩] [] lexer.context.pop rest := by
  have step := step_closing mode front
  have token : lexer.step.token = some (quote.kind, .none) := congrArg Step.token step
  have left : lexer.advance.rest = rest :=
    @rest_advance lexer [quote.char] rest front (congrArg Step.length step)
  have context : lexer.advance.context = lexer.context.pop := congrArg Step.context step
  have reads := ReadsTo.token token (.done _)
  rw [left, context, span, step] at reads
  exact reads

/-- From inside, a string is read as its body and its quote. -/
theorem readsTo_pieces (mode : lexer.context.mode = quote.mode) (walk : Walk quote.stops body [])
    (front : lexer.rest = body ++ quote.char :: rest) :
    lexer.ReadsTo (pieces quote lexer.offset body (bodyValue lexer.settings quote body).text)
      (((bodyValue lexer.settings quote body).errors body).map (·.variant))
      lexer.context.pop rest := by
  by_cases nil : body = []
  · subst nil
    exact readsTo_closing mode front
  · have step := step_run mode walk nil front
    have token : lexer.step.token = some (.textRun,
        .run (bodyValue lexer.settings quote body).text (String.ofList body)) :=
      congrArg Step.token step
    have length : lexer.step.length = body.length := congrArg Step.length step
    have left : lexer.advance.rest = quote.char :: rest := rest_advance front length
    have context : lexer.advance.context = lexer.context := congrArg Step.context step
    have place : lexer.advance.offset = lexer.offset + body.length :=
      congrArg (lexer.offset + ·) length
    have errors : lexer.step.errors = (bodyValue lexer.settings quote body).errors body :=
      congrArg Step.errors step
    have closing := readsTo_closing (context.symm ▸ mode) left
    have reads := ReadsTo.token token closing
    rw [context, place, span, length, errors, List.append_nil] at reads
    rw [pieces, if_neg nil]
    exact reads

/-- From code, it is read as a literal. -/
theorem readsTo_literal (mode : lexer.context.mode = .code) (walk : Walk quote.stops body [])
    (front : lexer.rest = quote.char :: (body ++ quote.char :: rest)) :
    lexer.ReadsTo [⟨.quotedLiteral, ⟨lexer.offset, body.length + 2⟩,
        .literal (bodyValue lexer.settings quote body).text quote⟩]
      (((bodyValue lexer.settings quote body).errors body).map (·.variant))
      lexer.context rest := by
  have step := step_literal mode walk front
  have token : lexer.step.token =
      some (.quotedLiteral, .literal (bodyValue lexer.settings quote body).text quote) :=
    congrArg Step.token step
  have written : (quote.char :: (body ++ [quote.char])).length = body.length + 2 := by simp
  have length : lexer.step.length = body.length + 2 := (congrArg Step.length step).trans written
  have left : lexer.advance.rest = rest := by
    refine rest_advance ?_ (length.trans written.symm)
    rw [front]
    simp
  have context : lexer.advance.context = lexer.context := congrArg Step.context step
  have errors : lexer.step.errors =
      (bodyValue lexer.settings quote body).errors (quote.char :: (body ++ [quote.char])) :=
    congrArg Step.errors step
  have reads := ReadsTo.token token (.done _)
  rw [left, context, span, length, errors, List.append_nil,
    Decoded.variants_eq rfl body (quote.char :: (body ++ [quote.char]))] at reads
  exact reads

/-- A double quote in code opens a string that is read in pieces just if the string has no end as
one token. -/
theorem opens_double_iff {text : List Char} (mode : lexer.context.mode = .code)
    (front : lexer.rest = '"' :: text) :
    (lexer.next.token = ⟨.doubleQuote, ⟨lexer.offset, 1⟩, .none⟩ ∧
      lexer.next.lexer.context = lexer.context.push .doubleQuoted) ↔
        Quoted.closingLength? '"' true text = none := by
  have step : lexer.step = Quoted.doubleStep lexer.settings lexer.context ('"' :: text) 0 := by
    rw [step_of_code mode (by rw [front]; exact List.cons_ne_nil _ _), front]
    rfl
  rw [Quoted.doubleStep, List.drop_succ_cons, List.drop_zero] at step
  rcases closes : Quoted.closingLength? '"' true text with _ | length
  · rw [closes] at step
    have token : lexer.step.token = some (.doubleQuote, .none) := congrArg Step.token step
    rw [next_of_token token, span, step]
    refine ⟨fun _ => rfl, fun _ => ⟨rfl, ?_⟩⟩
    exact congrArg Step.context step
  · rw [closes] at step
    have token : lexer.step.token = some (.quotedLiteral, _) := congrArg Step.token step
    rw [next_of_token token]
    refine ⟨fun opens => ?_, fun none => ?_⟩
    · cases opens.1
    · cases none

/-- **Strings are the same from both sides.** A body that a walk passes is read in code, between
quotes, as one literal, and from inside of the string as a run of text and the quote, with the same
value and the same kinds of problems; afterwards the same is left. A double quote in code opens a
string that is read in pieces just if something is interpolated before the next quote that no
backslash is in front of, or there is no such quote. -/
theorem strings_agree :
    (∀ (quote : Quote) (body rest : List Char), Walk quote.stops body [] →
      ∀ code inside : Lexer, code.context.mode = .code → inside.context.mode = quote.mode →
        inside.settings = code.settings →
        code.rest = quote.char :: (body ++ quote.char :: rest) →
        inside.rest = body ++ quote.char :: rest →
          ∃ text problems,
            code.ReadsTo [⟨.quotedLiteral, ⟨code.offset, body.length + 2⟩, .literal text quote⟩]
              problems code.context rest ∧
            inside.ReadsTo (pieces quote inside.offset body text) problems inside.context.pop
              rest) ∧
    ∀ (lexer : Lexer) (text : List Char), lexer.context.mode = .code → lexer.rest = '"' :: text →
      ((lexer.next.token = ⟨.doubleQuote, ⟨lexer.offset, 1⟩, .none⟩ ∧
          lexer.next.lexer.context = lexer.context.push .doubleQuoted) ↔
        Reaches (nextIs (· == '"')) Interpolation.startsAt text ∨
          ¬Reaches (fun _ => false) (nextIs (· == '"')) text) := by
  constructor
  · intro quote body rest walk code inside codeMode insideMode settings codeFront insideFront
    have literal := readsTo_literal codeMode walk codeFront
    have pieces := readsTo_pieces insideMode walk insideFront
    rw [settings] at pieces
    exact ⟨_, _, literal, pieces⟩
  · intro lexer text mode front
    rw [opens_double_iff mode front, Quoted.closingLength?_eq_none_iff]

/-- A body of an escaped quote and an escaped backslash, and a string whose only quote is
escaped. -/
theorem strings_agree_escapes :
    Walk Quote.double.stops "\\\"\\\\".toList [] ∧
    (∃ text problems,
      (start {} "\"\\\"\\\\\";".toList 0 { mode := .code }).ReadsTo
        [⟨.quotedLiteral, ⟨0, 6⟩, .literal text .double⟩] problems { mode := .code } [';'] ∧
      (start {} "\\\"\\\\\";".toList 1 { mode := .doubleQuoted }).ReadsTo
        (pieces .double 1 "\\\"\\\\".toList text) problems { mode := .code } [';']) ∧
    ((start {} "\"\\\"".toList 0 { mode := .code }).next.token = ⟨.doubleQuote, ⟨0, 1⟩, .none⟩ ∧
      (start {} "\"\\\"".toList 0 { mode := .code }).next.lexer.context =
        { mode := .doubleQuoted, enclosing := [.code] } ↔
      Reaches (nextIs (· == '"')) Interpolation.startsAt "\\\"".toList ∨
        ¬Reaches (fun _ => false) (nextIs (· == '"')) "\\\"".toList) := by
  have walk : Walk Quote.double.stops "\\\"\\\\".toList [] := .escape (.escape (.here []))
  refine ⟨walk, ?_, strings_agree.2 (start {} "\"\\\"".toList 0 { mode := .code }) _ rfl rfl⟩
  exact strings_agree.1 .double _ _ walk (start {} "\"\\\"\\\\\";".toList 0 { mode := .code })
    (start {} "\\\"\\\\\";".toList 1 { mode := .doubleQuoted }) rfl rfl rfl rfl rfl

end Lexer

end PhpFrontEnd
