import GraphQL.Printer.Executable
import GraphQL.Proofs.Printer.Value

/-!
Selections, operations and fragments print as their lexemes. The keyword that printing leaves
out is that of a query with nothing but selections.
-/

namespace GraphQL

open Layout

theorem Spells.keyword (keyword : String) (isName : Lexical.isName keyword.toList = true)
    {text : List Char} {lexemes : List Lexeme} (spells : Spells text lexemes) :
    Spells (keyword.toList ++ ' ' :: text) (.name keyword :: lexemes) :=
  (Spells.word isName).spaced rfl spells (List.cons_ne_nil _ _)

theorem FragmentSpread.spells {spread : FragmentSpread} (proper : AllProper spread.lexemes) :
    Spells spread.print spread.lexemes := by
  simp only [FragmentSpread.lexemes, allProper_cons, allProper_append] at proper
  have named :=
    (Name.spells proper.2.1).append (spells_wrap_space (spells_printDirectives proper.2.2))
    (stops_wrap rfl _ _ _)
  rw [FragmentSpread.print, List.append_assoc]
  exact named.ellipsis

theorem spells_fieldName {responseAlias : Option Name} {name : Name}
    (proper : AllProper (aliasLexemes responseAlias ++ name.lexemes)) :
    Spells (printFieldName responseAlias name) (aliasLexemes responseAlias ++ name.lexemes) := by
  cases responseAlias with
  | none => exact Name.spells proper
  | some key =>
      simp only [aliasLexemes, allProper_append, allProper_cons] at proper
      have whole := Name.spells_colon proper.1.1 (Name.spells proper.2) (List.cons_ne_nil _ _)
      simpa [aliasLexemes, printFieldName] using whole

theorem spells_condition {condition : Option NamedType}
    (proper : AllProper (conditionLexemes condition)) :
    Spells (wrap "on ".toList (printOptional NamedType.print condition) [])
      (conditionLexemes condition) := by
  cases condition with
  | none => exact .nil
  | some type =>
      have named := NamedType.spells (allProper_cons.mp proper).2
      have text : type.print ≠ [] :=
        fun none => absurd (named.eq_nil.mp none) (List.cons_ne_nil _ _)
      rw [printOptional, wrap_text text, List.append_nil]
      exact named.keyword "on" rfl

mutual

theorem Selection.spells :
    (selection : Selection) → AllProper selection.lexemes → Spells selection.print selection.lexemes
  | .field field, proper => field.spells proper
  | .spread _, proper => FragmentSpread.spells proper
  | .inline fragment, proper => fragment.spells proper

theorem Field.spells : (field : Field) → AllProper field.lexemes → Spells field.print field.lexemes
  | ⟨responseAlias, name, arguments, directives, set, _⟩, proper => by
      simp only [Field.lexemes, allProper_append] at proper
      obtain ⟨⟨⟨named, arguments⟩, directives⟩, set⟩ := proper
      have owner := spells_fieldName (allProper_append.mpr named)
      have whole := spells_words (.cons (spells_printArguments owner arguments)
        (.cons (spells_printDirectives directives) (.cons (spells_optionalSet _ set) .nil)))
      simpa only [Field.print, Field.lexemes, List.append_assoc, List.append_nil] using whole

theorem InlineFragment.spells :
    (fragment : InlineFragment) → AllProper fragment.lexemes →
    Spells fragment.print fragment.lexemes
  | ⟨typeCondition, directives, set, _⟩, proper => by
      simp only [InlineFragment.lexemes, allProper_cons, allProper_append] at proper
      obtain ⟨_, ⟨condition, directives⟩, set'⟩ := proper
      have dots : Spells "...".toList [.punctuator .ellipsis] := by
        simpa using Spells.nil.ellipsis
      have whole := spells_words (.cons dots (.cons (spells_condition condition)
        (.cons (spells_printDirectives directives) (.cons (set.spells set') .nil))))
      simpa only [InlineFragment.print, InlineFragment.lexemes, List.append_assoc,
        List.append_nil, List.singleton_append] using whole

theorem SelectionSet.spells :
    (set : SelectionSet) → AllProper set.lexemes → Spells set.print set.lexemes
  | ⟨selections, _⟩, proper => by
      rw [SelectionSet.lexemes, allProper_enclose] at proper
      exact spells_block (parts_selections selections proper)

theorem spells_optionalSet : (set : Option SelectionSet) → AllProper (optionalSetLexemes set) →
    Spells (printOptionalSet set) (optionalSetLexemes set)
  | none, _ => .nil
  | some set, proper => set.spells proper

theorem parts_selections :
    (selections : List Selection) → AllProper (selectionsLexemes selections) →
    Parts (printSelections selections) (selectionsLexemes selections)
  | [], _ => .nil
  | first :: rest, proper => by
      simp only [selectionsLexemes, allProper_append] at proper
      exact .cons (first.spells proper.1) (parts_selections rest proper.2)

end

theorem spells_wrap_default {value : Option Value} (proper : AllProper (defaultLexemes value)) :
    Spells (wrap "= ".toList (printOptional Value.print value) []) (defaultLexemes value) ∧
      Spells (wrap " = ".toList (printOptional Value.print value) []) (defaultLexemes value) := by
  cases value with
  | none => exact ⟨.nil, .nil⟩
  | some value =>
      have named := value.spells (allProper_cons.mp proper).2
      have text : value.print ≠ [] := fun none => value.lexemes_ne_nil (named.eq_nil.mp none)
      have spaced : Spells ([' '] ++ value.print) value.lexemes :=
        named.gap (by decide) value.lexemes_ne_nil
      have signed : Spells ('=' :: ' ' :: value.print) (.punctuator .equals :: value.lexemes) :=
        spaced.mark rfl
      have led : Spells ([' '] ++ '=' :: ' ' :: value.print)
          (.punctuator .equals :: value.lexemes) :=
        signed.gap (by decide) (List.cons_ne_nil _ _)
      rw [printOptional, wrap_text text, wrap_text text, List.append_nil, List.append_nil]
      exact ⟨signed, led⟩

theorem VariableDefinition.spells {definition : VariableDefinition}
    (proper : AllProper definition.lexemes) : Spells definition.print definition.lexemes := by
  simp only [VariableDefinition.lexemes, allProper_append, allProper_cons] at proper
  obtain ⟨declared, _, ⟨type, value⟩, directives⟩ := proper
  have rest := (spells_wrap_default value).2.append
    (spells_wrap_space (spells_printDirectives directives)) (stops_wrap rfl _ _ _)
  have typed := (definition.type.spells type).append rest
    (Lexical.stops_append (stops_wrap rfl _ _ _) (stops_wrap rfl _ _ _))
  have whole := (Variable.spells declared).append
    (typed.colon (by simp [TypeRef.lexemes_ne_nil])) (Lexical.stops_cons rfl _)
  simpa [VariableDefinition.print, VariableDefinition.lexemes] using whole

theorem spells_printVariableDefinitions {definitions : List VariableDefinition}
    (proper : AllProper (variableDefinitionsLexemes definitions)) :
    Spells (printVariableDefinitions definitions) (variableDefinitionsLexemes definitions) := by
  rw [variableDefinitionsLexemes, allProper_enclose, allProper_flatMap] at proper
  exact spells_enclose rfl rfl [] [] (by decide) (by decide) (spells_commas
    (.map fun definition member => VariableDefinition.spells (proper definition member)))

theorem spells_optionalName {name : Option Name}
    (proper : AllProper (optionalLexemes Name.lexemes name)) :
    Spells (printOptional Name.print name) (optionalLexemes Name.lexemes name) := by
  cases name with
  | none => exact .nil
  | some name => exact Name.spells proper

theorem eq_nil_of_flatMap {spell : α → List Lexeme} (some' : ∀ item, spell item ≠ [])
    {items : List α} : items.flatMap spell = [] ↔ items = [] := by
  cases items with
  | nil => simp
  | cons item rest => simp [some' item]

theorem enclose_eq_nil {opening closing : Punctuator} {lexemes : List Lexeme} :
    enclose opening lexemes closing = [] ↔ lexemes = [] := by
  unfold enclose
  split
  · rename_i none
    simpa using none
  · rename_i some'
    simpa using some'

def OperationDefinition.headLexemes (operation : OperationDefinition) : List Lexeme :=
  .name operation.operation.keyword :: (optionalLexemes Name.lexemes operation.name ++
    variableDefinitionsLexemes operation.variableDefinitions ++
    directivesLexemes operation.directives)

theorem OperationDefinition.headLexemes_eq {operation : OperationDefinition} :
    operation.headLexemes = [.name OperationType.query.keyword] ↔ operation.isShorthand = true := by
  have types : ∀ type : OperationType,
      type.keyword = OperationType.query.keyword ↔ type = .query := by
    intro type
    cases type <;> decide
  have names : optionalLexemes Name.lexemes operation.name = [] ↔ operation.name = none := by
    cases operation.name <;> simp [optionalLexemes, Name.lexemes]
  simp only [headLexemes, isShorthand, List.cons.injEq, Lexeme.name.injEq, types,
    List.append_eq_nil_iff, names, variableDefinitionsLexemes, enclose_eq_nil, directivesLexemes,
    eq_nil_of_flatMap VariableDefinition.lexemes_ne_nil, eq_nil_of_flatMap Directive.lexemes_ne_nil,
    Bool.and_eq_true, decide_eq_true_eq, Option.isNone_iff_eq_none, List.isEmpty_iff, and_assoc]

def OperationDefinition.printHead (operation : OperationDefinition) : List Char :=
  words [operation.operation.keyword.toList,
    printOptional Name.print operation.name ++
      printVariableDefinitions operation.variableDefinitions,
    printDirectives operation.directives]

theorem OperationDefinition.print_eq (operation : OperationDefinition) :
    operation.print = if operation.printHead = OperationType.query.keyword.toList
      then operation.selectionSet.print
      else operation.printHead ++ ' ' :: operation.selectionSet.print := rfl

theorem isName_keyword (type : OperationType) : Lexical.isName type.keyword.toList = true := by
  cases type <;> decide

theorem OperationDefinition.spells_head {operation : OperationDefinition}
    (proper : AllProper operation.headLexemes) :
    Spells operation.printHead operation.headLexemes := by
  simp only [headLexemes, allProper_cons, allProper_append] at proper
  obtain ⟨_, ⟨name, declared⟩, directives⟩ := proper
  have named := (spells_optionalName name).append (spells_printVariableDefinitions declared)
    (stops_wrap rfl _ _ _)
  have whole := spells_words (.cons (.word (isName_keyword operation.operation))
    (.cons named (.cons (spells_printDirectives directives) .nil)))
  simpa only [printHead, headLexemes, List.append_nil, List.append_assoc,
    List.singleton_append] using whole

theorem OperationDefinition.printHead_shorthand {operation : OperationDefinition}
    (shorthand : operation.isShorthand = true) :
    operation.printHead = OperationType.query.keyword.toList := by
  simp only [isShorthand, Bool.and_eq_true, decide_eq_true_eq, Option.isNone_iff_eq_none,
    List.isEmpty_iff] at shorthand
  obtain ⟨⟨⟨isQuery, noName⟩, noVariables⟩, noDirectives⟩ := shorthand
  rw [printHead, isQuery, noName, noVariables, noDirectives]
  decide

theorem OperationDefinition.spells {operation : OperationDefinition}
    (proper : AllProper (operation.lexemes false)) :
    Spells operation.print (operation.lexemes false) := by
  by_cases shorthand : operation.isShorthand = true
  · have short : operation.lexemes false = operation.selectionSet.lexemes := by
      simp [OperationDefinition.lexemes, shorthand]
    rw [short] at proper ⊢
    rw [print_eq, if_pos (printHead_shorthand shorthand)]
    exact operation.selectionSet.spells proper
  · have long : operation.lexemes false =
        operation.headLexemes ++ operation.selectionSet.lexemes := by
      simp [OperationDefinition.lexemes, shorthand, headLexemes]
    rw [long, allProper_append] at proper
    have head := spells_head proper.1
    -- The printed head is compared as a text. One that reads as the keyword alone is the keyword.
    have isNoQuery : operation.printHead ≠ OperationType.query.keyword.toList := by
      intro same
      have alone : Lexed OperationType.query.keyword.toList [.name OperationType.query.keyword] :=
        (Spells.word (isName_keyword .query)).lexed
      have read := head.lexed
      rw [same] at read
      exact shorthand (headLexemes_eq.mp (read.unique alone))
    rw [long, print_eq, if_neg isNoQuery]
    exact head.spaced rfl (operation.selectionSet.spells proper.2) (List.cons_ne_nil _ _)

theorem FragmentDefinition.spells {fragment : FragmentDefinition}
    (proper : AllProper fragment.lexemes) : Spells fragment.print fragment.lexemes := by
  simp only [FragmentDefinition.lexemes, allProper_append, allProper_cons] at proper
  obtain ⟨_, ⟨name, declared⟩, _, ⟨type, directives⟩, set⟩ := proper
  have behind : Spells (wrap [] (printDirectives fragment.directives) [' '] ++
      fragment.selectionSet.print) _ :=
    spells_wrap_behind rfl (spells_printDirectives directives) (fragment.selectionSet.spells set)
  have typed := (NamedType.spells type).space behind (List.cons_ne_nil _ _)
  have conditioned := (typed.keyword "on" rfl).gap_space (List.cons_ne_nil _ _)
  have owner := ((Name.spells name).append (spells_printVariableDefinitions declared)
    (stops_wrap rfl _ _ _)).append conditioned (Lexical.stops_cons rfl _)
  have whole := owner.keyword "fragment" rfl
  have keyword : "fragment ".toList = "fragment".toList ++ [' '] := by decide
  have on : " on ".toList = ' ' :: ("on".toList ++ [' ']) := by decide
  unfold FragmentDefinition.print FragmentDefinition.lexemes
  simp only [keyword, on, List.append_assoc, List.cons_append, List.nil_append] at whole ⊢
  exact whole

end GraphQL
