import GraphQL.Position

/-!
Tokens. A lexeme is what a token says: its kind, with its text where the kind has one. A
token adds where it stands and which token was read before it.
-/

namespace GraphQL

inductive Punctuator where
  | ampersand
  | atSign
  | bang
  | colon
  | braceClose
  | braceOpen
  | dollar
  | ellipsis
  | equals
  | parenClose
  | parenOpen
  | pipe
  | bracketClose
  | bracketOpen
deriving DecidableEq, Repr

namespace Punctuator

def text : Punctuator → String
  | ampersand => "&"
  | atSign => "@"
  | bang => "!"
  | colon => ":"
  | braceClose => "\x7d"
  | braceOpen => "\x7b"
  | dollar => "$"
  | ellipsis => "..."
  | equals => "="
  | parenClose => ")"
  | parenOpen => "("
  | pipe => "|"
  | bracketClose => "]"
  | bracketOpen => "["

def ofChar? (c : Char) : Option Punctuator :=
  match c with
  | '!' => some bang
  | '$' => some dollar
  | '&' => some ampersand
  | '(' => some parenOpen
  | ')' => some parenClose
  | ':' => some colon
  | '=' => some equals
  | '@' => some atSign
  | '[' => some bracketOpen
  | ']' => some bracketClose
  | '{' => some braceOpen
  | '|' => some pipe
  | '}' => some braceClose
  | _ => none

end Punctuator

inductive TokenKind where
  | sof
  | eof
  | punctuator (mark : Punctuator)
  | name
  | int
  | float
  | string
  | blockString
  | comment
deriving DecidableEq, Repr

namespace TokenKind

def punctuator? : TokenKind → Option Punctuator
  | punctuator mark => some mark
  | _ => none

def text : TokenKind → String
  | sof => "<SOF>"
  | eof => "<EOF>"
  | punctuator mark => mark.text
  | name => "Name"
  | int => "Int"
  | float => "Float"
  | string => "String"
  | blockString => "BlockString"
  | comment => "Comment"

/-- The kind as error messages name it: punctuators stand in quotes. -/
def description (kind : TokenKind) : String :=
  match kind.punctuator? with
  | some mark => "\"" ++ mark.text ++ "\""
  | none => kind.text

end TokenKind

/-- Strings carry their decoded value, names and numbers their text, and a comment what
follows its number sign. -/
inductive Lexeme where
  | sof
  | eof
  | punctuator (mark : Punctuator)
  | name (text : String)
  | int (text : String)
  | float (text : String)
  | string (value : String)
  | blockString (value : String)
  | comment (text : String)
deriving DecidableEq, Repr

namespace Lexeme

def kind : Lexeme → TokenKind
  | sof => .sof
  | eof => .eof
  | punctuator mark => .punctuator mark
  | name _ => .name
  | int _ => .int
  | float _ => .float
  | string _ => .string
  | blockString _ => .blockString
  | comment _ => .comment

def value? : Lexeme → Option String
  | sof | eof | punctuator _ => none
  | name text | int text | float text | comment text => some text
  | string value | blockString value => some value

def text (lexeme : Lexeme) : String := lexeme.value?.getD ""

def description (lexeme : Lexeme) : String :=
  match lexeme.value? with
  | some value => lexeme.kind.description ++ " \"" ++ value ++ "\""
  | none => lexeme.kind.description

def isComment : Lexeme → Bool
  | comment _ => true
  | _ => false

end Lexeme

/-- `start` and `stop` are offsets. `prev` is the place of the token before it among all
tokens read, comments included; only the first token of a text has none. -/
structure Token where
  lexeme : Lexeme
  start : Nat
  stop : Nat
  startPosition : Position
  endPosition : Position
  prev : Option Nat
deriving DecidableEq, Repr

namespace Token

def sof : Token := ⟨.sof, 0, 0, .start, .start, none⟩

def kind (token : Token) : TokenKind := token.lexeme.kind

def value? (token : Token) : Option String := token.lexeme.value?

def text (token : Token) : String := token.lexeme.text

def description (token : Token) : String := token.lexeme.description

def index (token : Token) : Nat :=
  match token.prev with
  | none => 0
  | some before => before + 1

/-- Comments are kept among the tokens, but no production sees them. -/
def isSignificant (token : Token) : Bool := !token.lexeme.isComment

end Token

end GraphQL
