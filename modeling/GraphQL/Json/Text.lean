import GraphQL.Json.Basic

/-!
JSON values as text: compactly, without blanks, and as an excerpt that fits a message.
-/

namespace GraphQL.Json

def lowerHexDigit (value : Nat) : Char :=
  if value < 10 then Char.ofNat (48 + value) else Char.ofNat (87 + value)

def escapeChar (c : Char) : List Char :=
  if c = '"' then ['\\', '"']
  else if c = '\\' then ['\\', '\\']
  else if c = '\x08' then ['\\', 'b']
  else if c = '\x0c' then ['\\', 'f']
  else if c = '\n' then ['\\', 'n']
  else if c = '\r' then ['\\', 'r']
  else if c = '\t' then ['\\', 't']
  else if c.toNat < 0x20 then
    ['\\', 'u', '0', '0', lowerHexDigit (c.toNat / 16), lowerHexDigit (c.toNat % 16)]
  else [c]

def quote (value : String) : String :=
  String.ofList ('"' :: (value.toList.flatMap escapeChar ++ ['"']))

mutual

def writeTo (out : String) : Json → String
  | null => out ++ "null"
  | bool value => out ++ toString value
  | int value => out ++ toString value
  | float value => out ++ String.ofList value.write
  | string value => out ++ quote value
  | array items => writeItems (out ++ "[") "" items ++ "]"
  | object entries => writeEntries (out ++ "\x7b") "" entries ++ "\x7d"

def writeItems (out separator : String) : List Json → String
  | [] => out
  | item :: rest => writeItems (writeTo (out ++ separator) item) "," rest

def writeEntries (out separator : String) : List (String × Json) → String
  | [] => out
  | (key, value) :: rest =>
      writeEntries (writeTo (out ++ separator ++ quote key ++ ":") value) "," rest

end

def compact (value : Json) : String := writeTo "" value

def maxShownItems : Nat := 10

def maxShownDepth : Nat := 2

def omission (count : Nat) : List String :=
  match count - maxShownItems with
  | 0 => []
  | 1 => ["... 1 more item"]
  | more => ["... " ++ toString more ++ " more items"]

mutual

def excerpt (depth : Nat) : Json → String
  | null => "null"
  | bool value => toString value
  | int value => toString value
  | float value => String.ofList value.write
  | string value => quote value
  | array [] => "[]"
  | array (item :: rest) =>
      if maxShownDepth ≤ depth then "[Array]"
      else
        let shown := (excerptItems (depth + 1) (item :: rest)).take maxShownItems
        "[" ++ ", ".intercalate (shown ++ omission (rest.length + 1)) ++ "]"
  | object [] => "\x7b\x7d"
  | object (entry :: rest) =>
      if maxShownDepth ≤ depth then "[Object]"
      else "\x7b " ++ ", ".intercalate (excerptEntries (depth + 1) (entry :: rest)) ++ " \x7d"

def excerptItems (depth : Nat) : List Json → List String
  | [] => []
  | item :: rest => excerpt depth item :: excerptItems depth rest

def excerptEntries (depth : Nat) : List (String × Json) → List String
  | [] => []
  | (key, value) :: rest => (key ++ ": " ++ excerpt depth value) :: excerptEntries depth rest

end

/-- An excerpt of a value: long arrays are cut and deep values are only named. -/
def inspect (value : Json) : String := excerpt 0 value

end GraphQL.Json
