import GraphQL.Position

/-!
Block strings. Their value is their text without the indentation that its lines share and
without blank lines around it; `literal` writes a value so that it reads back.
-/

namespace GraphQL.BlockString

def isIndent (c : Char) : Bool := c == ' ' || c == '\t'

def isBlank (line : List Char) : Bool := line.all isIndent

def indentation (line : List Char) : Nat := (line.takeWhile isIndent).length

/-- The indentation that all lines but the first share. Blank lines have no say. -/
def commonIndentation (lines : List (List Char)) : Nat :=
  (((lines.drop 1).filter fun line => !isBlank line).map indentation).min?.getD 0

def dropTrailing (drops : α → Bool) (members : List α) : List α :=
  (members.reverse.dropWhile drops).reverse

def shift : List (List Char) → List (List Char)
  | [] => []
  | first :: rest =>
      let common := commonIndentation (first :: rest)
      first :: rest.map fun line => line.drop (min common (indentation line))

/-- The lines of the value: shifted, without blank lines around them and without blanks at
the end of each. -/
def dedentLines (lines : List (List Char)) : List (List Char) :=
  ((dropTrailing isBlank (shift lines)).dropWhile isBlank).map (dropTrailing isIndent)

def dedent (text : List Char) : List Char :=
  ['\n'].intercalate (dedentLines (splitLines text))

def delimiter : List Char := ['"', '"', '"']

def escape : List Char → List Char
  | [] => []
  | '"' :: '"' :: '"' :: rest => '\\' :: '"' :: '"' :: '"' :: escape rest
  | c :: rest => c :: escape rest

def maxInline : Nat := 70

def startsIndented (line : List Char) : Bool := line.head?.any isIndent

/-- All lines behind the first are empty or indented, so that only a line break in front
keeps the first one out of the common indentation. -/
def needsLeadingBreak (lines : List (List Char)) : Bool :=
  lines.length > 1 && (lines.drop 1).all fun line => line.isEmpty || startsIndented line

/-- A literal with the given value, where a block string can have it. A value stays on one
line if it is short and its end cannot run into the closing delimiter. -/
def literal (value : List Char) : List Char :=
  let escaped := escape value
  let lines := splitLines escaped
  let single := lines.length == 1
  let leading := needsLeadingBreak lines
  let endsInDelimiter := ('\\' :: delimiter).isSuffixOf escaped
  let endsInQuote := value.getLast? == some '"' && !endsInDelimiter
  let endsInSlash := value.getLast? == some '\\'
  let multiple := !single || value.length > maxInline || endsInQuote || endsInSlash ||
    leading || endsInDelimiter
  let keepsFirstLine := single && startsIndented value
  delimiter ++ (if (multiple && !keepsFirstLine) || leading then ['\n'] else []) ++ escaped ++
    (if multiple then ['\n'] else []) ++ delimiter

end GraphQL.BlockString
