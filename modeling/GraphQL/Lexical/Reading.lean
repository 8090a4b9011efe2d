import GraphQL.Lexical.Fault

/-!
The result of reading at the start of a text: how many characters were consumed, and what
they gave. A reading that fails has consumed the characters in front of the fault.
-/

namespace GraphQL.Lexical

structure Reading (α : Type) where
  size : Nat
  outcome : Except Fault α

namespace Reading

def done (size : Nat) (value : α) : Reading α := ⟨size, .ok value⟩

def fail (fault : Fault) : Reading α := ⟨0, .error fault⟩

/-- The same reading behind `size` characters that were consumed before it. -/
def behind (size : Nat) (reading : Reading α) : Reading α :=
  ⟨size + reading.size, reading.outcome⟩

def map (change : α → β) (reading : Reading α) : Reading β :=
  ⟨reading.size, reading.outcome.map change⟩

def andThen (reading : Reading α) (next : α → Reading β) : Reading β :=
  match reading.outcome with
  | .ok value => (next value).behind reading.size
  | .error fault => ⟨reading.size, .error fault⟩

instance : Monad Reading where
  pure := done 0
  bind := andThen

end Reading

end GraphQL.Lexical
