import GraphQL.Proofs.Parser.Pairs.Value
import GraphQL.Proofs.Parser.Parts

/-!
Operations, fragments and selections in two runs.
-/

namespace GraphQL.Parser

/-- The variables of a fragment with the word behind them, which has to follow also where
fragments declare none. -/
def fragmentHead (levels : Nat) : Parser (List VariableDefinition) := do
  let variableDefinitions ← fragmentVariables levels
  expectKeyword "on"
  return variableDefinitions

theorem fragment_eq_head (levels : Nat) :
    fragment levels = (do
      let start ← current
      expectKeyword "fragment"
      let name ← fragmentName
      let variableDefinitions ← fragmentHead levels
      let typeCondition ← namedType
      let directives ← directives false levels
      let selectionSet ← selectionSet levels
      return ⟨name, variableDefinitions, typeCondition, directives, selectionSet,
        ← span start⟩) := by
  simp only [fragment_eq, fragmentHead, bind_assoc, pure_bind]

namespace Pairing

def FragmentHeads (pair : Pairing) : Prop :=
  ∀ n m : Nat, pair.levels n m →
    pair.Maps (List.map (VariableDefinition.relocate pair.relocate)) (fragmentHead n)
      (fragmentHead m)

namespace Lawful

variable {pair : Pairing} (lawful : pair.Lawful)
include lawful

theorem optionalPart_maps {part : Parser α} {part' : Parser β} {change : α → β}
    (maps : pair.Maps change part part') (kind : TokenKind) :
    pair.Maps (Option.map change) (optionalPart kind part) (optionalPart kind part') := by
  refine lawful.withCurrent fun {a b} twins => ?_
  refine .ite (by rw [lawful.kind_eq twins]) ?_ (agree_pure rfl)
  exact maps.bind fun found => agree_pure rfl

theorem fragmentName_maps : pair.Maps (Name.relocate pair.relocate) fragmentName fragmentName := by
  refine lawful.withCurrent fun {a b} twins => ?_
  rw [← lawful.lexeme_eq twins]
  split
  · rename_i reserved
    exact lawful.agree_fail twins rfl fun _ => ⟨rfl, reserved⟩
  · exact lawful.name_maps

theorem fieldKey_maps :
    pair.Maps (fun key => (key.1.map (Name.relocate pair.relocate), key.2.relocate pair.relocate))
      fieldKey fieldKey := by
  refine lawful.name_maps.bind fun first => (lawful.accept_maps _).bind fun aliased => ?_
  refine .ite Iff.rfl ?_ (agree_pure rfl)
  exact lawful.name_maps.bind fun name => agree_pure rfl

section
variable {set set' : Parser SelectionSet}
  (inner : pair.Maps (SelectionSet.relocate pair.relocate) set set') {n m : Nat}
  (levels : pair.levels n m)
include inner levels

theorem field_maps : pair.Maps (Field.relocate pair.relocate) (field set n) (field set' m) := by
  rw [field_eq, field_eq]
  refine lawful.withCurrent fun {a b} twins => lawful.fieldKey_maps.bind fun key => ?_
  refine (lawful.arguments_maps false levels).bind fun arguments => ?_
  refine (lawful.directives_maps false levels).bind fun directives => ?_
  refine (lawful.optionalPart_maps inner _).bind fun selectionSet => ?_
  refine lawful.located twins fun loc => ?_
  rw [Field.relocate, relocateOptional_eq]

omit inner in
theorem spreadBehind_maps {a b : Token} (twins : pair.tokens a b) :
    pair.Maps (Selection.relocate pair.relocate) (spreadBehind n a) (spreadBehind m b) := by
  refine lawful.fragmentName_maps.bind fun name => ?_
  refine (lawful.directives_maps false levels).bind fun directives => ?_
  exact lawful.located twins fun loc => rfl

theorem inlineBehind_maps {a b : Token} (twins : pair.tokens a b) (condition : Option NamedType) :
    pair.Maps (Selection.relocate pair.relocate) (inlineBehind set n a condition)
      (inlineBehind set' m b (condition.map (NamedType.relocate pair.relocate))) := by
  refine (lawful.directives_maps false levels).bind fun directives => ?_
  refine inner.bind fun selectionSet => ?_
  exact lawful.located twins fun loc => rfl

theorem spreadOrInline_maps :
    pair.Maps (Selection.relocate pair.relocate) (spreadOrInline set n)
      (spreadOrInline set' m) := by
  rw [spreadOrInline_eq, spreadOrInline_eq]
  refine lawful.withCurrent fun {a b} twins => (lawful.expect_maps _).bind fun _ => ?_
  refine (lawful.acceptKeyword_maps "on").bind fun conditioned => ?_
  refine .ite Iff.rfl ?_ (lawful.withCurrent fun {c d} ahead => ?_)
  · exact lawful.namedType_maps.bind fun type =>
      lawful.inlineBehind_maps inner levels twins (some type)
  · exact .ite (by rw [lawful.kind_eq ahead]) (lawful.spreadBehind_maps levels twins)
      (lawful.inlineBehind_maps inner levels twins none)

theorem selection_maps :
    pair.Maps (Selection.relocate pair.relocate) (selection set n) (selection set' m) := by
  refine lawful.withCurrent fun {a b} twins => ?_
  refine .ite (by rw [lawful.kind_eq twins]) (lawful.spreadOrInline_maps inner levels) ?_
  exact (lawful.field_maps inner levels).bind fun field => agree_pure rfl

end

theorem selectionSetBody_maps {item item' : Parser Selection}
    (each : pair.Maps (Selection.relocate pair.relocate) item item') :
    pair.Maps (SelectionSet.relocate pair.relocate) (selectionSetBody item)
      (selectionSetBody item') := by
  refine lawful.withCurrent fun {a b} twins => ?_
  refine (lawful.many_maps each _ _).bind fun selections => lawful.located twins fun loc => ?_
  rw [SelectionSet.relocate, relocateSelections_eq]

theorem selectionSet_maps {n m : Nat} (levels : pair.levels n m) :
    pair.Maps (SelectionSet.relocate pair.relocate) (selectionSet n) (selectionSet m) := by
  induction n generalizing m with
  | zero => exact lawful.agree_tooDeep levels fun none => by rw [none, selectionSet]
  | succ n ih =>
      cases m with
      | zero => cases lawful.closed levels
      | succ m =>
          have deeper := lawful.opened levels
          exact lawful.agree_nested
            (lawful.selectionSetBody_maps (lawful.selection_maps (ih deeper) deeper))

theorem operationType_maps : pair.Maps id operationType operationType := by
  refine lawful.withCurrent fun {a b} twins => (lawful.expect_maps _).bind fun _ => ?_
  rw [← lawful.text_eq twins]
  split
  · exact agree_pure rfl
  · exact lawful.agree_failOn twins (fun _ => rfl) fun _ => rfl

section
variable {n m : Nat} (levels : pair.levels n m)
include levels

theorem variableDefinition_maps :
    pair.Maps (VariableDefinition.relocate pair.relocate) (variableDefinition n)
      (variableDefinition m) := by
  refine lawful.withCurrent fun {a b} twins => lawful.variableRef_maps.bind fun declared => ?_
  refine (lawful.expect_maps _).bind fun _ => (lawful.typeRef_maps levels).bind fun type => ?_
  refine (lawful.defaultValue_maps levels).bind fun defaultValue => ?_
  refine (lawful.directives_maps true levels).bind fun directives => ?_
  exact lawful.located twins fun loc => rfl

theorem variableDefinitions_maps :
    pair.Maps (List.map (VariableDefinition.relocate pair.relocate)) (variableDefinitions n)
      (variableDefinitions m) :=
  lawful.optionalMany_maps (lawful.variableDefinition_maps levels) _ _

theorem operation_maps :
    pair.Maps (OperationDefinition.relocate pair.relocate) (operation n) (operation m) := by
  rw [operation_eq, operation_eq]
  refine lawful.withCurrent fun {a b} twins => ?_
  refine .ite (by rw [lawful.kind_eq twins]) ?_ ?_
  · refine (lawful.selectionSet_maps levels).bind fun selectionSet => ?_
    exact lawful.located twins fun loc => rfl
  · refine lawful.operationType_maps.bind fun operation => ?_
    refine (lawful.optionalPart_maps lawful.name_maps _).bind fun name => ?_
    refine (lawful.variableDefinitions_maps levels).bind fun variableDefinitions => ?_
    refine (lawful.directives_maps false levels).bind fun directives => ?_
    refine (lawful.selectionSet_maps levels).bind fun selectionSet => ?_
    exact lawful.located twins fun loc => rfl

theorem fragment_maps (heads : pair.FragmentHeads) :
    pair.Maps (FragmentDefinition.relocate pair.relocate) (fragment n) (fragment m) := by
  rw [fragment_eq_head, fragment_eq_head]
  refine lawful.withCurrent fun {a b} twins => (lawful.expectKeyword_maps _).bind fun _ => ?_
  refine lawful.fragmentName_maps.bind fun name => (heads n m levels).bind fun declared => ?_
  refine lawful.namedType_maps.bind fun typeCondition => ?_
  refine (lawful.directives_maps false levels).bind fun directives => ?_
  refine (lawful.selectionSet_maps levels).bind fun selectionSet => ?_
  exact lawful.located twins fun loc => rfl

end

theorem fragmentHeads (allows : pair.Maps id allowsFragmentVariables allowsFragmentVariables) :
    pair.FragmentHeads := by
  intro n m levels
  have declared : pair.Maps (List.map (VariableDefinition.relocate pair.relocate))
      (fragmentVariables n) (fragmentVariables m) := by
    refine allows.bind fun allowed => .ite Iff.rfl ?_ (agree_pure rfl)
    exact lawful.variableDefinitions_maps levels
  refine declared.bind fun found => (lawful.expectKeyword_maps _).bind fun _ => ?_
  exact agree_pure rfl

end Lawful

end Pairing

end GraphQL.Parser
