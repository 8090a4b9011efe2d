/-!
How printed parts are put together. Empty parts leave no trace: they are neither joined nor
wrapped.
-/

namespace GraphQL.Layout

def join (separator : List Char) (parts : List (List Char)) : List Char :=
  separator.intercalate (parts.filter fun part => !part.isEmpty)

def wrap (opening text closing : List Char) : List Char :=
  if text.isEmpty then [] else opening ++ text ++ closing

def margin : List Char := [' ', ' ']

def indentBreaks (text : List Char) : List Char :=
  text.flatMap fun c => if c = '\n' then '\n' :: margin else [c]

def indent (text : List Char) : List Char := wrap margin (indentBreaks text) []

def block (items : List (List Char)) : List Char :=
  wrap ['{', '\n'] (indent (join ['\n'] items)) ['\n', '}']

def words (parts : List (List Char)) : List Char := join [' '] parts

def commas (parts : List (List Char)) : List Char := join [',', ' '] parts

/-- The longest line on which arguments stand behind one another. -/
def maxLineLength : Nat := 80

end GraphQL.Layout
