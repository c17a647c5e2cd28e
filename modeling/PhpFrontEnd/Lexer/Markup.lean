import PhpFrontEnd.Lexer.Step

/-!
# Markup

Outside of code everything is markup up to the next opening tag. The long opening tag takes the
blank after it along, and is only one if a blank or the end of the source follows; where short tags
are switched on, `<?` opens code whatever follows.
-/

namespace PhpFrontEnd.Markup

/-- The opening tag at the front of a text, and its length. -/
def openTagAt? (settings : Settings) (text : List Char) : Option (TokenKind × Nat) :=
  match text with
  | '<' :: '?' :: rest =>
    let short := if settings.shortTags then some (.openTag, 2) else none
    if nextIs (· == '=') rest then some (.openTagWithEcho, 3)
    else if startsWithIgnoringCase ['p', 'h', 'p'] rest then
      match rest.drop 3 with
      | [] => some (.openTag, 5)
      | '\r' :: '\n' :: _ => some (.openTag, 7)
      | c :: _ => if isBlank c then some (.openTag, 6) else short
    else short
  | _ => none

/-- The number of characters before the next opening tag. -/
def textLength (settings : Settings) : List Char → Nat
  | [] => 0
  | c :: rest =>
    if (openTagAt? settings (c :: rest)).isSome then 0 else textLength settings rest + 1

/-- A step in markup. -/
def step (settings : Settings) (context : Context) (text : List Char) : Step :=
  match openTagAt? settings text with
  | some (kind, length) => (Step.emit context kind length).enter .code
  | none => .emitText context .inlineHtml (text.take (textLength settings text))

/-! ## What is in front -/

/-- What a step in markup takes. -/
inductive AtMarkup (settings : Settings) (context : Context) (text : List Char) : Step → Prop where
  | tag {kind : TokenKind} {length : Nat} (front : openTagAt? settings text = some (kind, length)) :
    AtMarkup settings context text ((Step.emit context kind length).enter .code)
  | run (noTag : openTagAt? settings text = none) :
    AtMarkup settings context text
      (.emitText context .inlineHtml (text.take (textLength settings text)))

/-- Every step in markup takes one of these. -/
theorem atMarkup (settings : Settings) (context : Context) (text : List Char) :
    AtMarkup settings context text (step settings context text) := by
  unfold step
  split
  · rename_i front
    exact .tag front
  · rename_i noTag
    exact .run noTag

end PhpFrontEnd.Markup
