import GraphQL.Lexical.Scan

/-!
A lexer reads the tokens of a source one by one as they are asked for, and keeps all it has
read, comments included. `advance` moves to the next significant token and `lookahead` only
shows it. A call that fails moves nothing but the scan.
-/

namespace GraphQL

/-- `ahead` is the significant token behind `current`, once it has been looked at. -/
structure Lexer where
  source : Source
  tokens : Array Token
  current : Token
  last : Token
  ahead : Option Token
  scan : Scan

namespace Lexer

def ofSource (source : Source) : Lexer :=
  { source
    tokens := #[.sof]
    current := .sof
    last := .sof
    ahead := none
    scan := .ofSource source }

def read (lexer : Lexer) : Except SyntaxError Token × Lexer :=
  match lexer.scan.read lexer.source (lexer.tokens.size - 1) with
  | (.ok token, scan) => (.ok token, { lexer with tokens := lexer.tokens.push token, scan })
  | (.error error, scan) => (.error error, { lexer with scan })

def readSignificant (lexer : Lexer) : (comments : Nat) → Except SyntaxError Token × Lexer
  | 0 => lexer.read
  | comments + 1 =>
      match lexer.read with
      | (.ok token, next) =>
          if token.isSignificant then (.ok token, next) else next.readSignificant comments
      | failed => failed

/-- Shows the next significant token. Behind the end stands the end again. A comment takes
a character at least, so there are no more comments than characters ahead. -/
def lookahead (lexer : Lexer) : Except SyntaxError Token × Lexer :=
  if lexer.current.lexeme = .eof then (.ok lexer.current, lexer)
  else
    match lexer.ahead with
    | some token => (.ok token, lexer)
    | none =>
        match lexer.readSignificant lexer.scan.rest.length with
        | (.ok token, next) => (.ok token, { next with ahead := some token })
        | failed => failed

def advance (lexer : Lexer) : Except SyntaxError Token × Lexer :=
  match lexer.lookahead with
  | (.ok token, next) =>
      (.ok token, { next with last := next.current, current := token, ahead := none })
  | failed => failed

def get? (lexer : Lexer) (place : Nat) : Option Token := lexer.tokens[place]?

def nextOf? (lexer : Lexer) (place : Nat) : Option Token := lexer.get? (place + 1)

def prevOf? (lexer : Lexer) (place : Nat) : Option Token := do
  let token ← lexer.get? place
  lexer.get? (← token.prev)

/-- Advances to the end or to the first error, in at most `steps` steps. -/
def finish (lexer : Lexer) : (steps : Nat) → Option SyntaxError × Lexer
  | 0 => (none, lexer)
  | steps + 1 =>
      match lexer.advance with
      | (.ok token, next) => if token.lexeme = .eof then (none, next) else next.finish steps
      | (.error error, next) => (some error, next)

end Lexer

def Source.lex (source : Source) : Option SyntaxError × Lexer :=
  (Lexer.ofSource source).finish (source.chars.length + 1)

end GraphQL
