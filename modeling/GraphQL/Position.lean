/-!
Lines and columns of a text. A line ends at a line feed, at a carriage return, or at a
carriage return directly followed by a line feed, which counts once. Columns count
characters; both numbers start at one.
-/

namespace GraphQL

structure Position where
  line : Nat
  column : Nat
deriving DecidableEq, Repr

def isLineBreak (c : Char) : Bool :=
  c == '\n' || c == '\r'

namespace Position

def start : Position := ⟨1, 1⟩

def nextLine (here : Position) : Position := ⟨here.line + 1, 1⟩

def nextColumn (here : Position) : Position := ⟨here.line, here.column + 1⟩

/-- The position right behind `text`, when `text` begins at `here`. -/
def after (here : Position) : List Char → Position
  | [] => here
  | '\r' :: '\n' :: rest => here.nextLine.after rest
  | c :: rest =>
      if isLineBreak c then here.nextLine.after rest else here.nextColumn.after rest

def text (here : Position) : String :=
  toString here.line ++ ":" ++ toString here.column

end Position

/-- The lines of a text, without the breaks between them. There is always at least one. -/
def splitLines : List Char → List (List Char)
  | [] => [[]]
  | '\r' :: '\n' :: rest => [] :: splitLines rest
  | c :: rest =>
      if isLineBreak c then [] :: splitLines rest
      else
        match splitLines rest with
        | [] => [[c]]
        | line :: others => (c :: line) :: others

end GraphQL
