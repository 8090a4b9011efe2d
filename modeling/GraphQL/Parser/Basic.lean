import GraphQL.Options
import GraphQL.Parser.Complaint
import GraphQL.TokenStream
import GraphQL.Tree.Location

/-!
Parsers: steps over the significant tokens of a source that give a result or an error. A step
that fails leaves the state where it stopped, and another one can go on from there.

The loops below run on a number of rounds that no text uses up: an item that succeeds has
moved forward by a token, and at the end of the text every item fails. Nodes that nest are
counted while they are open, and one that would exceed the limit is refused.
-/

namespace GraphQL

namespace Parser

/-- `last` is the token that was current before `current`; nodes end there. `tokenCount`
counts the tokens that were moved to, the end of the text apart, and `depth` the nodes that
are open around the current token, of those that nest. -/
structure State where
  source : Source
  options : Options
  current : Token
  last : Token
  upcoming : TokenStream
  tokenCount : Nat
  depth : Nat

def State.ofSource (source : Source) (options : Options) : State :=
  { source
    options
    current := .sof
    last := .sof
    upcoming := (TokenStream.ofSource source).significant
    tokenCount := 0
    depth := 0 }

namespace State

def atDepth (state : State) (depth : Nat) : State := { state with depth }

def opened (state : State) : State := state.atDepth (state.depth + 1)

def closed (state : State) : State := state.atDepth (state.depth - 1)

end State

end Parser

abbrev Parser := EStateM SyntaxError Parser.State

namespace Parser

def run (parser : Parser α) (source : Source) (options : Options) : Except SyntaxError α :=
  match EStateM.run parser (.ofSource source options) with
  | .ok result _ => .ok result
  | .error error _ => .error error

def current : Parser Token := fun state => .ok state.current state

def fail (token : Token) (complaint : Complaint) : Parser α := fun state =>
  .error (complaint.error state.source token) state

def unexpected : Parser α := fun state =>
  fail state.current (.unexpected state.current.lexeme) state

def tooDeep : Parser α := fun state =>
  fail state.current (.tooDeep state.options.maxNestingDepth) state

/-- Opens a node that nests, unless the limit is reached, and closes it again whether or not its
body was parsed. -/
def nested (body : Parser α) : Parser α := fun state =>
  if state.depth < state.options.maxNestingDepth then
    match body state.opened with
    | .ok result after => .ok result after.closed
    | .error error after => .error error after.closed
  else tooDeep state

/-- Moves to the next token, which counts unless it ends the text. -/
def advance : Parser Unit := fun state =>
  match state.upcoming.next with
  | (.error error, upcoming) => .error error { state with upcoming }
  | (.ok token, upcoming) =>
      let moved := { state with current := token, last := state.current, upcoming }
      if token.lexeme = .eof then .ok () moved
      else
        let counted := { moved with tokenCount := moved.tokenCount + 1 }
        match state.options.maxTokens with
        | none => .ok () counted
        | some limit =>
            if limit < counted.tokenCount then fail token (.tooManyTokens limit) counted
            else .ok () counted

/-- The token behind the current one. At the end of the text this is the end itself. -/
def lookahead : Parser Token := fun state =>
  if state.current.lexeme = .eof then .ok state.current state
  else
    match state.upcoming.next with
    | (.error error, upcoming) => .error error { state with upcoming }
    | (.ok token, _) => .ok token state

def span (start : Token) : Parser (Option Location) := fun state =>
  .ok (if state.options.noLocation then none
    else some (.between state.source start state.last)) state

def expect (kind : TokenKind) : Parser Unit := do
  let token ← current
  if token.kind = kind then advance else fail token (.expected kind token.lexeme)

def accept (kind : TokenKind) : Parser Bool := do
  if (← current).kind = kind then
    advance
    return true
  else return false

def expectKeyword (keyword : String) : Parser Unit := do
  let token ← current
  if token.lexeme = .name keyword then advance
  else fail token (.expectedKeyword keyword token.lexeme)

def acceptKeyword (keyword : String) : Parser Bool := do
  if (← current).lexeme = .name keyword then
    advance
    return true
  else return false

/-- More rounds than there are tokens ahead. -/
def rounds : Parser Nat := fun state => .ok (state.upcoming.items.length + 2) state

/-- One item or more, up to and including `close`. -/
def itemsUntil (close : TokenKind) (item : Parser α) : (rounds : Nat) → Parser (List α)
  | 0 => unexpected
  | rounds + 1 => do
      let first ← item
      if ← accept close then return [first]
      else return first :: (← itemsUntil close item rounds)

def anyUntil (close : TokenKind) (item : Parser α) : (rounds : Nat) → Parser (List α)
  | 0 => unexpected
  | rounds + 1 => do
      if ← accept close then return []
      else
        let first ← item
        return first :: (← anyUntil close item rounds)

def many (opening : TokenKind) (item : Parser α) (closing : TokenKind) : Parser (List α) := do
  expect opening
  itemsUntil closing item (← rounds)

def any (opening : TokenKind) (item : Parser α) (closing : TokenKind) : Parser (List α) := do
  expect opening
  anyUntil closing item (← rounds)

def optionalMany (opening : TokenKind) (item : Parser α) (closing : TokenKind) :
    Parser (List α) := do
  if ← accept opening then itemsUntil closing item (← rounds) else return []

def separated (separator : TokenKind) (item : Parser α) : (rounds : Nat) → Parser (List α)
  | 0 => unexpected
  | rounds + 1 => do
      let first ← item
      if ← accept separator then return first :: (← separated separator item rounds)
      else return [first]

/-- One item or more with a separator between them, which may also stand in front. -/
def delimited (separator : TokenKind) (item : Parser α) : Parser (List α) := do
  let _ ← accept separator
  separated separator item (← rounds)

def whileAt (mark : TokenKind) (item : Parser α) : (rounds : Nat) → Parser (List α)
  | 0 => unexpected
  | rounds + 1 => do
      if (← current).kind = mark then
        let first ← item
        return first :: (← whileAt mark item rounds)
      else return []

/-- A production that has to be all of a text. -/
def whole (item : Parser α) : Parser α := do
  expect .sof
  let result ← item
  expect .eof
  return result

end Parser

end GraphQL
