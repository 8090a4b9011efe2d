import GraphQL.Hex

/-!
Quoted strings on one line, as they are written: quotes, backslashes and control characters
are escaped, everything else stands for itself.
-/

namespace GraphQL.StringLiteral

/-- The control characters of ASCII and of the block that follows it. -/
def isControl (c : Char) : Bool :=
  c.toNat ≤ 0x1F || (0x7F ≤ c.toNat && c.toNat ≤ 0x9F)

def writeChar (c : Char) : List Char :=
  if c = '"' then ['\\', '"']
  else if c = '\\' then ['\\', '\\']
  else if c = '\x08' then ['\\', 'b']
  else if c = '\t' then ['\\', 't']
  else if c = '\n' then ['\\', 'n']
  else if c = '\x0c' then ['\\', 'f']
  else if c = '\r' then ['\\', 'r']
  else if isControl c then '\\' :: 'u' :: Hex.four c.toNat
  else [c]

def write (value : List Char) : List Char :=
  '"' :: (value.flatMap writeChar ++ ['"'])

end GraphQL.StringLiteral
