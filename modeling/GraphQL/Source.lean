import GraphQL.Position

/-!
A named text. Offsets into it count the bytes of its UTF-8 form, as every consumer of
spans expects; an offset is a boundary when it does not fall inside a character.
-/

namespace GraphQL

def byteLength : List Char → Nat
  | [] => 0
  | c :: rest => c.utf8Size + byteLength rest

/-- The longest prefix that takes at most `bytes` bytes. -/
def takeBytes : Nat → List Char → List Char
  | _, [] => []
  | bytes, c :: rest =>
      if c.utf8Size ≤ bytes then c :: takeBytes (bytes - c.utf8Size) rest else []

/-- The shortest prefix that takes at least `bytes` bytes, or all of a shorter text. -/
def coverBytes : Nat → List Char → List Char
  | _, [] => []
  | bytes, c :: rest =>
      if bytes = 0 then [] else c :: coverBytes (bytes - c.utf8Size) rest

/-- Cuts a text at a boundary; there is no result inside a character or past the end. -/
def splitBytes? : Nat → List Char → Option (List Char × List Char)
  | 0, text => some ([], text)
  | _ + 1, [] => none
  | bytes + 1, c :: rest =>
      if c.utf8Size ≤ bytes + 1 then
        (splitBytes? (bytes + 1 - c.utf8Size) rest).map fun (taken, left) => (c :: taken, left)
      else none

structure Source where
  body : String
  name : String
deriving DecidableEq, Repr

namespace Source

def defaultName : String := "GraphQL request"

def ofBody (body : String) : Source := ⟨body, defaultName⟩

def chars (source : Source) : List Char := source.body.toList

/-- The position of an offset. An offset inside a character counts as that character's
start, one past the end as the end. -/
def locationOf (source : Source) (offset : Nat) : Position :=
  Position.start.after (takeBytes offset source.chars)

def slice? (source : Source) (start stop : Nat) : Option String :=
  if start ≤ stop then do
    let (_, behind) ← splitBytes? start source.chars
    let (taken, _) ← splitBytes? (stop - start) behind
    return String.ofList taken
  else none

end Source

end GraphQL
