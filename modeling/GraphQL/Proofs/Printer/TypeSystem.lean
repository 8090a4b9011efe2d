import GraphQL.Printer.TypeSystem
import GraphQL.Proofs.Printer.Executable

/-!
Definitions and extensions of the type system print as their lexemes, without the marks that
may be left out.
-/

namespace GraphQL

open Layout

theorem spells_description {description : Option StringValue}
    (proper : AllProper (descriptionLexemes description)) :
    Spells (printOptional StringValue.print description) (descriptionLexemes description) := by
  cases description with
  | none => exact .nil
  | some literal => exact StringValue.spells (proper _ List.mem_cons_self)

theorem spells_printDescribed {description : Option StringValue}
    (proper : AllProper (descriptionLexemes description)) {text : List Char} {lexemes : List Lexeme}
    (spells : Spells text lexemes) :
    Spells (printDescribed description text) (descriptionLexemes description ++ lexemes) :=
  spells_wrap_behind rfl (spells_description proper) spells

theorem OperationTypeDefinition.spells {definition : OperationTypeDefinition}
    (proper : AllProper definition.lexemes) : Spells definition.print definition.lexemes := by
  simp only [OperationTypeDefinition.lexemes, allProper_cons] at proper
  exact (Spells.word (isName_keyword definition.operation)).append
    ((NamedType.spells proper.2.2).colon (List.cons_ne_nil _ _)) (Lexical.stops_cons rfl _)

theorem spells_braced {print : α → List Char} {spell : α → List Lexeme} {items : List α}
    (each : ∀ item, AllProper (spell item) → Spells (print item) (spell item))
    (proper : AllProper (bracedLexemes spell items)) :
    Spells (block (items.map print)) (bracedLexemes spell items) := by
  rw [bracedLexemes, allProper_enclose, allProper_flatMap] at proper
  exact spells_block (.map fun item member => each item (proper item member))

theorem spells_printOperationTypes {definitions : List OperationTypeDefinition}
    (proper : AllProper (bracedLexemes OperationTypeDefinition.lexemes definitions)) :
    Spells (printOperationTypes definitions)
      (bracedLexemes OperationTypeDefinition.lexemes definitions) :=
  spells_braced (fun _ => OperationTypeDefinition.spells) proper

theorem SchemaDefinition.spells {schema : SchemaDefinition} (proper : AllProper schema.lexemes) :
    Spells schema.print schema.lexemes := by
  simp only [SchemaDefinition.lexemes, allProper_append, allProper_cons] at proper
  obtain ⟨description, _, directives, operationTypes⟩ := proper
  have keyword : Spells "schema".toList [.name "schema"] := .word rfl
  have body := spells_words (.cons keyword (.cons (spells_printDirectives directives)
    (.cons (spells_printOperationTypes operationTypes) .nil)))
  have whole := spells_printDescribed description body
  simpa only [SchemaDefinition.print, SchemaDefinition.lexemes, List.append_nil,
    List.singleton_append] using whole

theorem spells_extend {keyword : String} (isName : Lexical.isName keyword.toList = true) :
    Spells ("extend ".toList ++ keyword.toList) [.name "extend", .name keyword] := by
  have whole := (Spells.word isName).keyword "extend" rfl
  have extend : "extend ".toList = "extend".toList ++ [' '] := by decide
  rw [extend, List.append_assoc]
  exact whole

theorem SchemaExtension.spells {schema : SchemaExtension} (proper : AllProper schema.lexemes) :
    Spells schema.print schema.lexemes := by
  simp only [SchemaExtension.lexemes, allProper_append, allProper_cons] at proper
  obtain ⟨_, _, directives, operationTypes⟩ := proper
  have keyword : Spells "extend schema".toList [.name "extend", .name "schema"] := by
    have joined : "extend schema".toList = "extend ".toList ++ "schema".toList := by decide
    rw [joined]
    exact spells_extend rfl
  have whole := spells_words (.cons keyword (.cons (spells_printDirectives directives)
    (.cons (spells_printOperationTypes operationTypes) .nil)))
  simpa only [SchemaExtension.print, SchemaExtension.lexemes, List.append_nil, List.cons_append,
    List.nil_append] using whole

theorem InputValueDefinition.spells {definition : InputValueDefinition}
    (proper : AllProper definition.lexemes) : Spells definition.print definition.lexemes := by
  simp only [InputValueDefinition.lexemes, allProper_append, allProper_cons] at proper
  obtain ⟨⟨description, name⟩, _, ⟨type, value⟩, directives⟩ := proper
  have named := Name.spells_colon name (definition.type.spells type) definition.type.lexemes_ne_nil
  have body := spells_words (.cons named (.cons (spells_wrap_default value).1
    (.cons (spells_printDirectives directives) .nil)))
  have whole := spells_printDescribed description body
  simpa only [InputValueDefinition.print, InputValueDefinition.lexemes, List.append_nil,
    List.append_assoc, List.cons_append] using whole

theorem spells_printArgumentDefinitions {definitions : List InputValueDefinition}
    (proper : AllProper (argumentDefinitionsLexemes definitions)) :
    Spells (printArgumentDefinitions definitions) (argumentDefinitionsLexemes definitions) := by
  rw [argumentDefinitionsLexemes, allProper_enclose, allProper_flatMap] at proper
  have parts : Parts (definitions.map InputValueDefinition.print)
      (definitions.flatMap InputValueDefinition.lexemes) :=
    .map fun definition member => InputValueDefinition.spells (proper definition member)
  unfold printArgumentDefinitions
  dsimp only
  split
  · exact spells_enclose rfl rfl ['\n'] ['\n'] (by decide) (by decide)
      (spells_indent (spells_lines parts))
  · exact spells_enclose rfl rfl [] [] (by decide) (by decide) (spells_commas parts)

theorem stops_printArgumentDefinitions (definitions : List InputValueDefinition) :
    Lexical.Stops (printArgumentDefinitions definitions) := by
  unfold printArgumentDefinitions
  dsimp only
  split <;> exact stops_wrap rfl _ _ _

theorem FieldDefinition.spells {field : FieldDefinition} (proper : AllProper field.lexemes) :
    Spells field.print field.lexemes := by
  simp only [FieldDefinition.lexemes, allProper_append, allProper_cons] at proper
  obtain ⟨⟨⟨description, name⟩, arguments⟩, _, type, directives⟩ := proper
  have typed := (field.type.spells type).append
    (spells_wrap_space (spells_printDirectives directives)) (stops_wrap rfl _ _ _)
  have body := ((Name.spells name).append (spells_printArgumentDefinitions arguments)
    (stops_printArgumentDefinitions _)).append
      (typed.colon (by simp [TypeRef.lexemes_ne_nil])) (Lexical.stops_cons rfl _)
  have whole := spells_printDescribed description body
  simpa only [FieldDefinition.print, FieldDefinition.lexemes, List.append_assoc,
    List.cons_append] using whole

theorem EnumValueDefinition.spells {value : EnumValueDefinition}
    (proper : AllProper value.lexemes) :
    Spells value.print value.lexemes := by
  simp only [EnumValueDefinition.lexemes, allProper_append] at proper
  obtain ⟨⟨description, name⟩, directives⟩ := proper
  have body :=
    spells_words (.cons (Name.spells name) (.cons (spells_printDirectives directives) .nil))
  have whole := spells_printDescribed description body
  simpa only [EnumValueDefinition.print, EnumValueDefinition.lexemes, List.append_nil,
    List.append_assoc] using whole

theorem allProper_separated {mark : Punctuator} {spell : α → List Lexeme} {items : List α} :
    AllProper (separatedLexemes mark spell items) ↔ ∀ item ∈ items, AllProper (spell item) := by
  fun_induction separatedLexemes mark spell items with
  | case1 => simp
  | case2 => simp
  | case3 item next rest ih => simp [Lexeme.isProper, ih]

theorem spells_separated {c : Char} {mark : Punctuator} (isMark : Punctuator.ofChar? c = some mark)
    {print : α → List Char} {spell : α → List Lexeme} (some' : ∀ item, spell item ≠ [])
    {items : List α} (each : ∀ item ∈ items, Spells (print item) (spell item)) :
    Spells (join [' ', c, ' '] (items.map print)) (separatedLexemes mark spell items) := by
  induction items with
  | nil => exact .nil
  | cons item rest ih =>
      have first := each item List.mem_cons_self
      have text : print item ≠ [] := fun none => some' item (first.eq_nil.mp none)
      cases rest with
      | nil =>
          rw [List.map_cons, List.map_nil, join_cons text]
          exact first
      | cons next others =>
          have behind := ih fun other member => each other (List.mem_cons_of_mem item member)
          have goesOn : separatedLexemes mark spell (next :: others) ≠ [] := by
            cases others <;> simp [separatedLexemes, some' next]
          have led := ((behind.gap_space goesOn).mark isMark).gap_space (List.cons_ne_nil _ _)
          rw [List.map_cons, join_cons text, if_neg fun none => goesOn (behind.eq_nil.mp none)]
          exact first.append led (Lexical.stops_cons rfl _)

theorem separatedLexemes_ne_nil {mark : Punctuator} {spell : α → List Lexeme}
    (some' : ∀ item, spell item ≠ []) {items : List α} (nonempty : items ≠ []) :
    separatedLexemes mark spell items ≠ [] := by
  fun_cases separatedLexemes mark spell items <;> simp_all

theorem spells_printTypes {c : Char} {mark : Punctuator} (isMark : Punctuator.ofChar? c = some mark)
    {types : List NamedType} (proper : AllProper (separatedLexemes mark NamedType.lexemes types)) :
    Spells (printTypes c types) (separatedLexemes mark NamedType.lexemes types) := by
  rw [allProper_separated] at proper
  exact spells_separated isMark NamedType.lexemes_ne_nil
    fun type member => NamedType.spells (proper type member)

theorem spells_interfaces {types : List NamedType}
    (proper : AllProper (interfacesLexemes false types)) :
    Spells (wrap "implements ".toList (printTypes '&' types) [])
      (interfacesLexemes false types) := by
  unfold interfacesLexemes at *
  split
  · rename_i none
    rw [List.isEmpty_iff.mp none]
    exact .nil
  · rename_i some'
    rw [if_neg some', allProper_cons] at proper
    have listed : Spells (printTypes '&' types) _ := spells_printTypes rfl proper.2
    have text : printTypes '&' types ≠ [] := fun none =>
      separatedLexemes_ne_nil NamedType.lexemes_ne_nil (by simpa using some')
        (listed.eq_nil.mp none)
    have whole := listed.keyword "implements" rfl
    have blank : "implements ".toList = "implements".toList ++ [' '] := by decide
    rw [wrap_text text, blank]
    simpa [optionalMark] using whole

theorem spells_unionMembers {types : List NamedType}
    (proper : AllProper (unionMembersLexemes false types)) :
    Spells (wrap "= ".toList (printTypes '|' types) []) (unionMembersLexemes false types) := by
  unfold unionMembersLexemes at *
  split
  · rename_i none
    rw [List.isEmpty_iff.mp none]
    exact .nil
  · rename_i some'
    rw [if_neg some', allProper_cons] at proper
    have listed : Spells (printTypes '|' types) _ := spells_printTypes rfl proper.2
    have several : separatedLexemes .pipe NamedType.lexemes types ≠ [] :=
      separatedLexemes_ne_nil NamedType.lexemes_ne_nil (by simpa using some')
    have text : printTypes '|' types ≠ [] := fun none => several (listed.eq_nil.mp none)
    have whole : Spells ('=' :: ' ' :: _) _ := (listed.gap_space several).mark rfl
    rw [wrap_text text, List.append_nil]
    exact whole

namespace TypeBody

variable {body : TypeBody}

theorem spells_interfaces (proper : AllProper (body.interfacesLexemes false)) :
    Spells body.printInterfaces (body.interfacesLexemes false) := GraphQL.spells_interfaces proper

theorem spells_members (proper : AllProper (body.membersLexemes false)) :
    Spells body.printMembers (body.membersLexemes false) := by
  cases body with
  | scalar => exact .nil
  | object => exact spells_braced (fun _ => FieldDefinition.spells) proper
  | interface => exact spells_braced (fun _ => FieldDefinition.spells) proper
  | union => exact spells_unionMembers proper
  | enum => exact spells_braced (fun _ => EnumValueDefinition.spells) proper
  | inputObject => exact spells_braced (fun _ => InputValueDefinition.spells) proper

theorem spells {keyword : List Char} {keywords : List Lexeme}
    (starts : Spells keyword keywords) {name : Name} {directives : List Directive}
    (proper : AllProper (body.lexemes false name directives)) :
    Spells (body.print keyword name directives)
      (keywords ++ body.lexemes false name directives) := by
  simp only [TypeBody.lexemes, allProper_append] at proper
  obtain ⟨⟨⟨named, interfaces⟩, directives⟩, members⟩ := proper
  have whole := spells_words (.cons starts (.cons (Name.spells named)
    (.cons (spells_interfaces interfaces) (.cons (spells_printDirectives directives)
      (.cons (spells_members members) .nil)))))
  simpa only [TypeBody.print, TypeBody.lexemes, List.append_assoc, List.append_nil] using whole

end TypeBody

theorem isName_formKeyword (form : TypeForm) : Lexical.isName form.keyword.toList = true := by
  cases form <;> decide

theorem TypeDefinition.spells {type : TypeDefinition} (proper : AllProper (type.lexemes false)) :
    Spells type.print (type.lexemes false) := by
  simp only [TypeDefinition.lexemes, allProper_append, allProper_cons] at proper
  obtain ⟨description, _, body⟩ := proper
  exact spells_printDescribed description
    (TypeBody.spells (.word (isName_formKeyword type.body.form)) body)

theorem TypeExtension.spells {type : TypeExtension} (proper : AllProper (type.lexemes false)) :
    Spells type.print (type.lexemes false) := by
  simp only [TypeExtension.lexemes, allProper_cons] at proper
  exact TypeBody.spells (spells_extend (isName_formKeyword type.body.form)) proper.2.2

theorem DirectiveDefinition.spells {directive : DirectiveDefinition}
    (proper : AllProper (directive.lexemes false)) :
    Spells directive.print (directive.lexemes false) := by
  simp only [DirectiveDefinition.lexemes, allProper_append, allProper_cons] at proper
  obtain ⟨description, _, _, ⟨⟨name, arguments⟩, repeatable⟩, _, _, locations⟩ := proper
  have places : Spells (join [' ', '|', ' '] (directive.locations.map Name.print)) _ :=
    spells_separated rfl Name.lexemes_ne_nil
      fun place member => Name.spells (allProper_separated.mp locations place member)
  have located := places.keyword "on" rfl
  have behind : Spells ((if directive.repeatable then " repeatable".toList else []) ++
      ' ' :: ("on".toList ++ ' ' :: join [' ', '|', ' '] (directive.locations.map Name.print)))
      ((if directive.repeatable then [.name "repeatable"] else []) ++ .name "on" ::
        separatedLexemes .pipe Name.lexemes directive.locations) ∧
      Lexical.Stops ((if directive.repeatable then " repeatable".toList else []) ++
      ' ' ::
        ("on".toList ++ ' ' :: join [' ', '|', ' '] (directive.locations.map Name.print))) := by
    have blank : " repeatable".toList = ' ' :: "repeatable".toList := by decide
    cases directive.repeatable with
    | false => exact ⟨located.gap_space (List.cons_ne_nil _ _), Lexical.stops_cons rfl _⟩
    | true =>
        have word : Spells "repeatable".toList [.name "repeatable"] := .word rfl
        have whole := (word.space located (List.cons_ne_nil _ _)).gap_space (List.cons_ne_nil _ _)
        simp only [if_true, blank, List.cons_append] at whole ⊢
        exact ⟨whole, Lexical.stops_cons rfl _⟩
  have named := ((Name.spells name).append (spells_printArgumentDefinitions arguments)
    (stops_printArgumentDefinitions _)).append behind.1 behind.2
  have signed : Spells ('@' :: _) _ := named.mark rfl
  have body := spells_printDescribed description (signed.keyword "directive" rfl)
  have keyword : "directive @".toList = "directive".toList ++ [' ', '@'] := by decide
  have on : " on ".toList = ' ' :: ("on".toList ++ [' ']) := by decide
  have bar : " | ".toList = [' ', '|', ' '] := by decide
  unfold DirectiveDefinition.print DirectiveDefinition.lexemes
  simp only [keyword, on, bar, optionalMark, Bool.false_eq_true, if_false, List.append_assoc,
    List.cons_append, List.nil_append] at body ⊢
  exact body

end GraphQL
