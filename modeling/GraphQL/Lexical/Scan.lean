import GraphQL.Lexical.Lexeme

/-!
Walking through a source: a cursor moves over characters, and a scan is a cursor with the
text that is still ahead of it. One read skips what separates tokens and takes one token; a
read that fails leaves the scan where the fault is, and the next one goes on from there.
-/

namespace GraphQL

/-- `afterReturn` tells that the last character was a carriage return, whose line break a
line feed would only complete. -/
structure Cursor where
  offset : Nat
  position : Position
  afterReturn : Bool
deriving DecidableEq, Repr

namespace Cursor

def start : Cursor := ⟨0, .start, false⟩

def next (here : Cursor) (c : Char) : Cursor :=
  { offset := here.offset + c.utf8Size
    position :=
      if c = '\n' && here.afterReturn then here.position
      else if isLineBreak c then here.position.nextLine
      else here.position.nextColumn
    afterReturn := c = '\r' }

def advance (here : Cursor) (text : List Char) : Cursor := text.foldl next here

end Cursor

structure Scan where
  cursor : Cursor
  rest : List Char
deriving DecidableEq, Repr

namespace Scan

def ofSource (source : Source) : Scan := ⟨.start, source.chars⟩

def consume (scan : Scan) (size : Nat) : Scan :=
  ⟨scan.cursor.advance (scan.rest.take size), scan.rest.drop size⟩

/-- Blanks, commas, line breaks and byte order marks only separate tokens. -/
def isIgnored (c : Char) : Bool :=
  c == ' ' || c == '\t' || c == ',' || isLineBreak c || c == '\uFEFF'

def skipIgnored (scan : Scan) : Scan :=
  scan.consume (scan.rest.takeWhile isIgnored).length

end Scan

/-- The error for a fault that was met at `here` in the token that began at `start`. -/
def Lexical.Fault.error (source : Source) (start here : Cursor) (fault : Fault) : SyntaxError :=
  let started := fun position => [Note.general "String started here" (some position)]
  match fault with
  | .danglingEscape =>
      .inSource source (here.offset + 1) fault.kind fault.message
        (started (source.locationOf here.offset))
  | .unterminated =>
      .inSource source here.offset fault.kind fault.message (started start.position)
  | .incompleteSpread =>
      .inSource source here.offset fault.kind fault.message
        [.help "Add one more `.` to form the spread operator `...`"]
  | _ => .inSource source here.offset fault.kind fault.message []

/-- Reads the token ahead, comments included, behind the token at place `prev`. -/
def Scan.read (source : Source) (prev : Nat) (scan : Scan) : Except SyntaxError Token × Scan :=
  let begun := scan.skipIgnored
  let reading := Lexical.lexeme begun.rest
  let ended := begun.consume reading.size
  let token :=
    match reading.outcome with
    | .ok lexeme =>
        .ok { lexeme
              start := begun.cursor.offset
              stop := ended.cursor.offset
              startPosition := begun.cursor.position
              endPosition := ended.cursor.position
              prev := some prev }
    | .error fault => .error (fault.error source begun.cursor ended.cursor)
  (token, ended)

end GraphQL
