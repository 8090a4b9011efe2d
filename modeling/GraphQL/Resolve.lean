import GraphQL.Entries

/-!
Resolving an object: every field has a task of its own, all tasks run to their ends, and the
outcomes become one result. Failures are gathered, never cut short by the first of them.
-/

namespace GraphQL.Resolve

inductive Failure (ε : Type) where
  | single (error : ε)
  | aggregate (errors : List ε)
deriving DecidableEq, Repr

namespace Failure

def errors : Failure ε → List ε
  | single error => [error]
  | aggregate errors => errors

def merge (a b : Failure ε) : Failure ε := aggregate (a.errors ++ b.errors)

def text (render : ε → String) : Failure ε → String
  | single error => render error
  | aggregate errors => toString errors.length ++ " resolvers failed"

end Failure

inductive Interruption where
  | panicked
  | cancelled
deriving DecidableEq, Repr

/-- How a task ended. `ι` tells why one did not come to its end. -/
inductive Outcome (α ε : Type) (ι : Type := Interruption) where
  | value (value : α)
  | failure (failure : Failure ε)
  | interrupted (cause : ι)
deriving DecidableEq, Repr

namespace Outcome

def value? : Outcome α ε ι → Option α
  | value found => some found
  | _ => none

def errors (ofInterruption : ι → ε) : Outcome α ε ι → List ε
  | value _ => []
  | failure found => found.errors
  | interrupted cause => [ofInterruption cause]

def isFinished : Outcome α ε ι → Bool
  | interrupted _ => false
  | _ => true

end Outcome

structure Settled (κ α ε : Type) where
  values : List (κ × α)
  errors : List ε
deriving DecidableEq, Repr

def Settled.add [DecidableEq κ] (ofInterruption : ι → ε) (settled : Settled κ α ε) :
    κ × Outcome α ε ι → Settled κ α ε
  | (key, .value found) => { settled with values := Entries.put key found settled.values }
  | (_, outcome) => { settled with errors := settled.errors ++ outcome.errors ofInterruption }

/-- Waits for one task after another, in the order of their keys. -/
def settle [DecidableEq κ] (ofInterruption : ι → ε) (outcomes : List (κ × Outcome α ε ι)) :
    Settled κ α ε :=
  outcomes.foldl (Settled.add ofInterruption) ⟨[], []⟩

/-- The values of all tasks under their keys if there was no error, else all errors, in the
order of the keys. -/
def collect [DecidableEq κ] (ofInterruption : ι → ε) (outcomes : List (κ × Outcome α ε ι)) :
    Except (Failure ε) (List (κ × α)) :=
  let settled := settle ofInterruption outcomes
  if settled.errors.isEmpty then .ok settled.values else .error (.aggregate settled.errors)

end GraphQL.Resolve
