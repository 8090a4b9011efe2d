import GraphQL.Tree.TypeRef

/-!
Selections: what an operation asks for of each object it meets.
-/

namespace GraphQL

structure FragmentSpread where
  name : Name
  directives : List Directive
  loc : Option Location
deriving DecidableEq

mutual

inductive Selection where
  | field (field : Field)
  | spread (spread : FragmentSpread)
  | inline (fragment : InlineFragment)

structure Field where
  responseAlias : Option Name
  name : Name
  arguments : List Argument
  directives : List Directive
  selectionSet : Option SelectionSet
  loc : Option Location

structure InlineFragment where
  typeCondition : Option NamedType
  directives : List Directive
  selectionSet : SelectionSet
  loc : Option Location

structure SelectionSet where
  selections : List Selection
  loc : Option Location

end

mutual

def Selection.same : Selection → Selection → Bool
  | .field a, .field b => a.same b
  | .spread a, .spread b => a = b
  | .inline a, .inline b => a.same b
  | _, _ => false

def Field.same : Field → Field → Bool
  | ⟨alias₁, name₁, arguments₁, directives₁, set₁, loc₁⟩,
      ⟨alias₂, name₂, arguments₂, directives₂, set₂, loc₂⟩ =>
      alias₁ = alias₂ && name₁ = name₂ && arguments₁ = arguments₂ &&
        directives₁ = directives₂ && sameOptional set₁ set₂ && loc₁ = loc₂

def InlineFragment.same : InlineFragment → InlineFragment → Bool
  | ⟨condition₁, directives₁, set₁, loc₁⟩, ⟨condition₂, directives₂, set₂, loc₂⟩ =>
      condition₁ = condition₂ && directives₁ = directives₂ && set₁.same set₂ && loc₁ = loc₂

def SelectionSet.same : SelectionSet → SelectionSet → Bool
  | ⟨a, l⟩, ⟨b, m⟩ => sameSelections a b && l = m

def sameOptional : Option SelectionSet → Option SelectionSet → Bool
  | none, none => true
  | some a, some b => a.same b
  | _, _ => false

def sameSelections : List Selection → List Selection → Bool
  | [], [] => true
  | a :: as, b :: bs => a.same b && sameSelections as bs
  | _, _ => false

end

mutual

theorem Selection.same_iff : (a b : Selection) → (a.same b = true ↔ a = b)
  | .field a, b => by
      cases b with
      | field b => simp [Selection.same, Field.same_iff a b]
      | _ => simp [Selection.same]
  | .spread a, b => by cases b <;> simp [Selection.same]
  | .inline a, b => by
      cases b with
      | inline b => simp [Selection.same, InlineFragment.same_iff a b]
      | _ => simp [Selection.same]

theorem Field.same_iff : (a b : Field) → (a.same b = true ↔ a = b)
  | ⟨_, _, _, _, set₁, _⟩, ⟨_, _, _, _, set₂, _⟩ => by
      simp [Field.same, sameOptional_iff set₁ set₂, and_assoc]

theorem InlineFragment.same_iff : (a b : InlineFragment) → (a.same b = true ↔ a = b)
  | ⟨_, _, set₁, _⟩, ⟨_, _, set₂, _⟩ => by
      simp [InlineFragment.same, SelectionSet.same_iff set₁ set₂, and_assoc]

theorem SelectionSet.same_iff : (a b : SelectionSet) → (a.same b = true ↔ a = b)
  | ⟨a, l⟩, ⟨b, m⟩ => by simp [SelectionSet.same, sameSelections_iff a b]

theorem sameOptional_iff : (a b : Option SelectionSet) → (sameOptional a b = true ↔ a = b)
  | none, b => by cases b <;> simp [sameOptional]
  | some a, b => by
      cases b with
      | none => simp [sameOptional]
      | some b => simp [sameOptional, SelectionSet.same_iff a b]

theorem sameSelections_iff : (a b : List Selection) → (sameSelections a b = true ↔ a = b)
  | [], b => by cases b <;> simp [sameSelections]
  | first :: rest, b => by
      cases b with
      | nil => simp [sameSelections]
      | cons other others =>
          simp [sameSelections, Selection.same_iff first other, sameSelections_iff rest others]

end

instance : DecidableEq Selection := fun a b => decidable_of_iff _ (Selection.same_iff a b)

instance : DecidableEq SelectionSet :=
  fun a b => decidable_of_iff _ (SelectionSet.same_iff a b)

def Field.responseKey (field : Field) : String :=
  (field.responseAlias.getD field.name).value

def Selection.loc : Selection → Option Location
  | .field inner => inner.loc
  | .spread inner => inner.loc
  | .inline inner => inner.loc

mutual

def Selection.walk : Selection → List Selection
  | .field ⟨responseAlias, name, arguments, directives, set, loc⟩ =>
      .field ⟨responseAlias, name, arguments, directives, set, loc⟩ :: walkOptional set
  | .spread inner => [.spread inner]
  | .inline ⟨typeCondition, directives, set, loc⟩ =>
      .inline ⟨typeCondition, directives, set, loc⟩ :: set.walk

/-- All selections of a set at every depth, each before those inside it. -/
def SelectionSet.walk : SelectionSet → List Selection
  | ⟨selections, _⟩ => walkSelections selections

def walkOptional : Option SelectionSet → List Selection
  | none => []
  | some set => set.walk

def walkSelections : List Selection → List Selection
  | [] => []
  | first :: rest => first.walk ++ walkSelections rest

end

end GraphQL
