import GraphQL.Source

/-!
Syntax errors: what kind of error, where, in which words, and notes that help the reader.
An error is shown on one line, or in detail with the line of the text it stands in.
-/

namespace GraphQL

inductive ErrorKind where
  | unexpectedCharacter
  | invalidNumber
  | invalidString
  | unterminatedString
  | unexpectedToken (expected : Option String) (found : String)
  | reservedName (name : String)
  | invalidDescription
  | tokenLimitExceeded (limit : Nat)
  | nestingTooDeep (limit : Nat)
deriving DecidableEq, Repr

namespace ErrorKind

def text : ErrorKind → String
  | unexpectedCharacter => "unexpected character"
  | invalidNumber => "invalid number"
  | invalidString => "invalid string"
  | unterminatedString => "unterminated string"
  | unexpectedToken _ found => "unexpected token: " ++ found
  | reservedName name => "reserved name: `" ++ name ++ "`"
  | invalidDescription => "invalid description"
  | tokenLimitExceeded limit => "token limit of " ++ toString limit ++ " exceeded"
  | nestingTooDeep limit => "nesting depth limit of " ++ toString limit ++ " exceeded"

end ErrorKind

inductive NoteKind where
  | general
  | help
  | spec
deriving DecidableEq, Repr

def NoteKind.text : NoteKind → String
  | general => "note"
  | help => "help"
  | spec => "spec"

structure Note where
  kind : NoteKind
  message : String
  position : Option Position
deriving DecidableEq, Repr

namespace Note

def general (message : String) (position : Option Position) : Note :=
  ⟨.general, message, position⟩

def help (message : String) : Note := ⟨.help, message, none⟩

def spec (address : String) : Note := ⟨.spec, address, none⟩

end Note

structure SyntaxError where
  sourceName : String
  offset : Nat
  position : Position
  kind : ErrorKind
  message : String
  notes : List Note
deriving DecidableEq, Repr

namespace SyntaxError

def inSource (source : Source) (offset : Nat) (kind : ErrorKind) (message : String)
    (notes : List Note) : SyntaxError :=
  ⟨source.name, offset, source.locationOf offset, kind, message, notes⟩

def text (error : SyntaxError) : String :=
  "Syntax Error: " ++ error.message

def place (error : SyntaxError) : String :=
  error.sourceName ++ ":" ++ error.position.text

def oneline (error : SyntaxError) : String :=
  error.place ++ ": error: " ++ error.message

end SyntaxError

/-- The most spaces that a text can be filled up with. -/
def maxPadding : Nat := 65535

/-- The line that a position names, under a line that marks its column. Line numbers take
at least two places. A position outside the text shows nothing. A mark that is set off by more
than `maxPadding` spaces cannot be shown, which `SyntaxError.detailed?` takes into account. -/
def snippet (body : String) (position : Position) (marker : Char) : String :=
  if position.line = 0 then ""
  else
    match (splitLines body.toList)[position.line - 1]? with
    | none => ""
    | some line =>
        let number := toString position.line
        let width := max number.length 2
        let margin := "".pushn ' ' width
        margin ++ " |\n" ++
          "".pushn ' ' (width - number.length) ++ number ++ " | " ++ String.ofList line ++ "\n" ++
          margin ++ " | " ++ "".pushn ' ' (position.column - 1) ++ String.singleton marker ++ "\n"

def Note.detailed (body : String) (note : Note) : String :=
  "   = " ++ note.kind.text ++ ": " ++ note.message ++ "\n" ++
    match note.position with
    | some position => snippet body position '-'
    | none => ""

def SyntaxError.detailed (body : String) (error : SyntaxError) : String :=
  "error: " ++ error.message ++ "\n  --> " ++ error.place ++ "\n" ++
    snippet body error.position '^' ++ String.join (error.notes.map (Note.detailed body))

def Position.isInReach (body : String) (position : Position) : Bool :=
  (snippet body position ' ').isEmpty || position.column - 1 ≤ maxPadding

def SyntaxError.marks (error : SyntaxError) : List Position :=
  error.position :: error.notes.filterMap Note.position

/-- The detailed form of an error, unless it has a mark that cannot be shown. -/
def SyntaxError.detailed? (body : String) (error : SyntaxError) : Option String :=
  if error.marks.all (Position.isInReach body) then some (error.detailed body) else none

end GraphQL
