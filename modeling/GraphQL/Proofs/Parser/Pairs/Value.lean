import GraphQL.Parser.Value
import GraphQL.Proofs.Parser.Moves
import GraphQL.Proofs.Parser.Pairs.Basic
import GraphQL.Proofs.Relocate

/-!
Names, values, directives and type references in two runs.
-/

namespace GraphQL.Parser.Pairing.Lawful

variable {pair : Pairing} (lawful : pair.Lawful)
include lawful

theorem name_maps : pair.Maps (Name.relocate pair.relocate) name name := by
  refine lawful.withCurrent fun {a b} twins => (lawful.expect_maps .name).bind fun _ => ?_
  refine lawful.located twins fun loc => ?_
  rw [← lawful.text_eq twins]
  rfl

theorem variableRef_maps : pair.Maps (Variable.relocate pair.relocate) variableRef variableRef := by
  refine lawful.withCurrent fun {a b} twins => (lawful.expect_maps _).bind fun _ => ?_
  exact lawful.name_maps.bind fun name => lawful.located twins fun loc => rfl

theorem stringValue_maps :
    pair.Maps (StringValue.relocate pair.relocate) stringValue stringValue := by
  refine lawful.withCurrent fun {a b} twins => lawful.advance_maps.bind fun _ => ?_
  refine lawful.located twins fun loc => ?_
  rw [← lawful.text_eq twins, ← lawful.kind_eq twins]
  rfl

theorem refuseVariable_agree {fits : Value → Value → Prop} :
    pair.Agree fits refuseVariable refuseVariable := by
  intro s t alike
  have twins := lawful.current_twins alike
  refine (lawful.expect_maps _ s t alike).bind fun {_ _ s₁ t₁} expected _ still => ?_
  obtain ⟨isDollar, moved⟩ := expect_ok expected
  have other : pair.Agree fits (fail s.current (.unexpected s.current.lexeme))
      (fail t.current (.unexpected t.current.lexeme)) :=
    lawful.agree_failOn twins (fun _ => rfl) fun _ => rfl
  rw [current_eq, current_eq, ← lawful.lexeme_eq (lawful.current_twins still)]
  cases named : s₁.current.lexeme with
  | name text =>
      have dollar := (fixes_mark .dollar s.current.lexeme).mp isDollar
      exact lawful.outcome_fail still twins rfl ⟨dollar, (advance_keeps moved).2, named⟩
  | _ => exact other s₁ t₁ still

omit lawful in
theorem relocate_namedValue (text : String) (loc : Option Location) :
    (namedValue text loc).relocate pair.relocate = namedValue text (pair.relocate loc) := by
  unfold namedValue
  split <;> rfl

section
variable {item item' : Parser Value} (each : pair.Maps (Value.relocate pair.relocate) item item')
include each

theorem objectField_maps :
    pair.Maps (ObjectField.relocate pair.relocate) (objectField item) (objectField item') := by
  refine lawful.withCurrent fun {a b} twins => lawful.name_maps.bind fun name => ?_
  refine (lawful.expect_maps _).bind fun _ => each.bind fun value => ?_
  exact lawful.located twins fun loc => rfl

theorem valueBody_maps (isConst : Bool) :
    pair.Maps (Value.relocate pair.relocate) (valueBody isConst item)
      (valueBody isConst item') := by
  refine lawful.withCurrent fun {a b} twins => ?_
  rw [← lawful.lexeme_eq twins]
  split
  · refine (lawful.any_maps each _ _).bind fun items => lawful.located twins fun loc => ?_
    rw [Value.relocate, relocateItems_eq]
  · refine (lawful.any_maps (lawful.objectField_maps each) _ _).bind fun fields => ?_
    refine lawful.located twins fun loc => ?_
    rw [Value.relocate, relocateFields_eq]
  · exact lawful.advance_maps.bind fun _ => lawful.located twins fun loc => rfl
  · exact lawful.advance_maps.bind fun _ => lawful.located twins fun loc => rfl
  · exact lawful.stringValue_maps.bind fun literal => agree_pure rfl
  · exact lawful.stringValue_maps.bind fun literal => agree_pure rfl
  · refine lawful.advance_maps.bind fun _ => lawful.located twins fun loc => ?_
    exact (relocate_namedValue _ loc).symm
  · refine .ite Iff.rfl lawful.refuseVariable_agree ?_
    exact lawful.variableRef_maps.bind fun reference => agree_pure rfl
  · exact lawful.agree_unexpected

end

theorem value_maps (isConst : Bool) {n m : Nat} (levels : pair.levels n m) :
    pair.Maps (Value.relocate pair.relocate) (value isConst n) (value isConst m) := by
  induction n generalizing m with
  | zero => exact lawful.agree_tooDeep levels fun none => by rw [none, value]
  | succ n ih =>
      cases m with
      | zero => cases lawful.closed levels
      | succ m =>
          exact lawful.agree_nested (lawful.valueBody_maps (ih (lawful.opened levels)) isConst)

section
variable (isConst : Bool) {n m : Nat} (levels : pair.levels n m)
include levels

theorem argument_maps :
    pair.Maps (Argument.relocate pair.relocate) (argument isConst n) (argument isConst m) := by
  refine lawful.withCurrent fun {a b} twins => lawful.name_maps.bind fun name => ?_
  refine (lawful.expect_maps _).bind fun _ => ?_
  refine (lawful.value_maps isConst levels).bind fun value => ?_
  exact lawful.located twins fun loc => rfl

theorem arguments_maps :
    pair.Maps (List.map (Argument.relocate pair.relocate)) (arguments isConst n)
      (arguments isConst m) :=
  lawful.optionalMany_maps (lawful.argument_maps isConst levels) _ _

theorem directive_maps :
    pair.Maps (Directive.relocate pair.relocate) (directive isConst n) (directive isConst m) := by
  refine lawful.withCurrent fun {a b} twins => (lawful.expect_maps _).bind fun _ => ?_
  refine lawful.name_maps.bind fun name => ?_
  refine (lawful.arguments_maps isConst levels).bind fun arguments => ?_
  exact lawful.located twins fun loc => rfl

theorem directives_maps :
    pair.Maps (List.map (Directive.relocate pair.relocate)) (directives isConst n)
      (directives isConst m) :=
  lawful.whileAt_maps (lawful.directive_maps isConst levels) _

end

theorem namedType_maps : pair.Maps (NamedType.relocate pair.relocate) namedType namedType := by
  refine lawful.withCurrent fun {a b} twins => lawful.name_maps.bind fun name => ?_
  exact lawful.located twins fun loc => rfl

theorem typeRef_tail_maps {a b : Token} (twins : pair.tokens a b) (type : NullableType) :
    pair.Maps (TypeRef.relocate pair.relocate)
      (do if ← accept (.punctuator .bang) then return .nonNull type (← span a)
          else return .nullable type)
      (do if ← accept (.punctuator .bang) then
            return .nonNull (type.relocate pair.relocate) (← span b)
          else return .nullable (type.relocate pair.relocate)) := by
  refine (lawful.accept_maps _).bind fun excludes => ?_
  exact .ite Iff.rfl (lawful.located twins fun loc => rfl) (agree_pure rfl)

theorem typeRefBody_maps {item item' : Parser TypeRef}
    (each : pair.Maps (TypeRef.relocate pair.relocate) item item') :
    pair.Maps (TypeRef.relocate pair.relocate) (typeRefBody item) (typeRefBody item') := by
  refine lawful.withCurrent fun {a b} twins => (lawful.accept_maps _).bind fun opens => ?_
  refine .ite Iff.rfl ?_ ?_
  · refine each.bind fun item => (lawful.expect_maps _).bind fun _ => ?_
    refine (lawful.span_maps twins).bind fun loc => ?_
    exact lawful.typeRef_tail_maps twins (.list item loc)
  · refine lawful.namedType_maps.bind fun type => ?_
    exact lawful.typeRef_tail_maps twins (.named type)

theorem typeRef_maps {n m : Nat} (levels : pair.levels n m) :
    pair.Maps (TypeRef.relocate pair.relocate) (typeRef n) (typeRef m) := by
  induction n generalizing m with
  | zero => exact lawful.agree_tooDeep levels fun none => by rw [none, typeRef]
  | succ n ih =>
      cases m with
      | zero => cases lawful.closed levels
      | succ m => exact lawful.agree_nested (lawful.typeRefBody_maps (ih (lawful.opened levels)))

theorem defaultValue_maps {n m : Nat} (levels : pair.levels n m) :
    pair.Maps (Option.map (Value.relocate pair.relocate)) (defaultValue n) (defaultValue m) := by
  refine (lawful.accept_maps _).bind fun given => .ite Iff.rfl ?_ (agree_pure rfl)
  exact (lawful.value_maps true levels).bind fun value => agree_pure rfl

end GraphQL.Parser.Pairing.Lawful
