import GraphQL.Token
import GraphQL.Source

/-!
Where a node stands: from the start of its first token to the end of its last one. A
location that was read back from elsewhere knows no source.
-/

namespace GraphQL

structure Location where
  start : Nat
  stop : Nat
  startPosition : Position
  endPosition : Position
  source : Option Source
deriving DecidableEq, Repr

namespace Location

def between (source : Source) (first last : Token) : Location :=
  ⟨first.start, last.stop, first.startPosition, last.endPosition, some source⟩

def text? (loc : Location) : Option String := do
  (← loc.source).slice? loc.start loc.stop

def withoutSource (loc : Location) : Location := { loc with source := none }

end Location

end GraphQL
