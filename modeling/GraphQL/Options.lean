import GraphQL.Json.Basic

/-!
What a caller may choose about parsing: whether nodes keep their locations, whether fragments
may declare variables, and how long and how deep a text may be.
-/

namespace GraphQL

structure Options where
  noLocation : Bool
  fragmentVariables : Bool
  /-- How many tokens a text may have; no limit if there is none. -/
  maxTokens : Option Nat
  /-- How many selection sets, values and type references may enclose one another. -/
  maxNestingDepth : Nat
deriving DecidableEq, Repr

namespace Options

def defaultNestingDepth : Nat := 128

def default : Options := ⟨false, false, none, defaultNestingDepth⟩

def flagAt? (json : Json) (key : String) (missing : Bool) : Option Bool :=
  match json.field? key with
  | none => some missing
  | some (.bool value) => some value
  | some _ => none

def countAt? (json : Json) (key : String) (missing : Nat) : Option Nat :=
  match json.field? key with
  | none => some missing
  | some (.int value) => if 0 ≤ value then some value.toNat else none
  | some _ => none

/-- Options from an object. Missing entries have their defaults; unknown ones are ignored. -/
def ofJson? : Json → Option Options
  | .object entries => do
      let json := Json.object entries
      let noLocation ← flagAt? json "no_location" false
      let fragmentVariables ← flagAt? json "allow_legacy_fragment_variables" false
      let maxTokens ←
        match json.field? "max_tokens" with
        | none | some .null => some none
        | some _ => (countAt? json "max_tokens" 0).map some
      let maxNestingDepth ← countAt? json "max_nesting_depth" defaultNestingDepth
      return ⟨noLocation, fragmentVariables, maxTokens, maxNestingDepth⟩
  | _ => none

end Options

end GraphQL
