import GraphQL.Printer.Value
import GraphQL.Proofs.Printer.Layout

/-!
Values, directives and type references print as their lexemes.
-/

namespace GraphQL

open Layout

theorem Name.spells {name : Name} (proper : AllProper name.lexemes) :
    Spells name.print name.lexemes := .word (proper _ List.mem_cons_self)

theorem StringValue.spells {literal : StringValue} (proper : literal.lexeme.isProper = true) :
    Spells literal.print [literal.lexeme] := by
  unfold StringValue.lexeme StringValue.print at *
  split
  · rename_i block
    rw [if_pos block] at proper
    exact @Spells.written (.blockString literal.value) proper
  · exact @Spells.written (.string literal.value) rfl

theorem Variable.spells {reference : Variable} (proper : AllProper reference.lexemes) :
    Spells reference.print reference.lexemes :=
  (Name.spells (allProper_cons.mp proper).2).mark rfl

theorem Spells.colon {text : List Char} {lexemes : List Lexeme} (spells : Spells text lexemes)
    (some' : lexemes ≠ []) : Spells (':' :: ' ' :: text) (.punctuator .colon :: lexemes) := by
  have spaced : Spells ([' '] ++ text) lexemes := spells.gap (by decide) some'
  exact spaced.mark rfl

theorem Name.spells_colon {name : Name} (proper : AllProper name.lexemes) {text : List Char}
    {lexemes : List Lexeme} (spells : Spells text lexemes) (some' : lexemes ≠ []) :
    Spells (name.print ++ ':' :: ' ' :: text) (name.lexemes ++ .punctuator .colon :: lexemes) :=
  (Name.spells proper).append (spells.colon some') (Lexical.stops_cons rfl _)

mutual

theorem Value.spells : (value : Value) → AllProper value.lexemes → Spells value.print value.lexemes
  | .var reference, proper => Variable.spells proper
  | .int text _, proper => @Spells.written (.int text) (proper _ List.mem_cons_self)
  | .float text _, proper => @Spells.written (.float text) (proper _ List.mem_cons_self)
  | .string literal, proper => StringValue.spells (proper _ List.mem_cons_self)
  | .boolean true _, _ => .word rfl
  | .boolean false _, _ => .word rfl
  | .null _, _ => .word rfl
  | .enum name _, proper => .word (proper _ List.mem_cons_self)
  | .list items _, proper => by
      simp only [Value.lexemes, allProper_cons, allProper_append] at proper
      have inner := spells_commas (parts_items items proper.2.1)
      exact (inner.append (Spells.nil.mark rfl) (Lexical.stops_cons rfl [])).mark rfl
  | .object fields _, proper => by
      simp only [Value.lexemes, allProper_cons, allProper_append] at proper
      have inner := spells_commas (parts_fields fields proper.2.1)
      exact (inner.append (Spells.nil.mark rfl) (Lexical.stops_cons rfl [])).mark rfl

theorem parts_items : (items : List Value) → AllProper (itemsLexemes items) →
    Parts (printItems items) (itemsLexemes items)
  | [], _ => .nil
  | item :: rest, proper => by
      simp only [itemsLexemes, allProper_append] at proper
      exact .cons (item.spells proper.1) (parts_items rest proper.2)

theorem parts_fields : (fields : List ObjectField) → AllProper (fieldsLexemes fields) →
    Parts (printFields fields) (fieldsLexemes fields)
  | [], _ => .nil
  | field :: rest, proper => by
      simp only [fieldsLexemes, allProper_append] at proper
      exact .cons (field.spells proper.1) (parts_fields rest proper.2)

theorem ObjectField.spells :
    (field : ObjectField) → AllProper field.lexemes → Spells field.print field.lexemes
  | ⟨name, value, _⟩, proper => by
      simp only [ObjectField.lexemes, allProper_append, allProper_cons] at proper
      exact Name.spells_colon proper.1 (value.spells proper.2.2) value.lexemes_ne_nil

end

theorem Argument.spells {argument : Argument} (proper : AllProper argument.lexemes) :
    Spells argument.print argument.lexemes := by
  simp only [Argument.lexemes, allProper_append, allProper_cons] at proper
  exact Name.spells_colon proper.1 (argument.value.spells proper.2.2) argument.value.lexemes_ne_nil

theorem allProper_enclose {opening closing : Punctuator} {lexemes : List Lexeme} :
    AllProper (enclose opening lexemes closing) ↔ AllProper lexemes := by
  unfold enclose
  split
  · rename_i none
    simp [List.isEmpty_iff.mp none]
  · simp [Lexeme.isProper]

theorem spells_printArguments {owner : List Char} {lexemes : List Lexeme}
    (spells : Spells owner lexemes) {arguments : List Argument}
    (proper : AllProper (argumentsLexemes arguments)) :
    Spells (printArguments owner arguments) (lexemes ++ argumentsLexemes arguments) := by
  rw [argumentsLexemes, allProper_enclose, allProper_flatMap] at proper
  have parts : Parts (arguments.map Argument.print) (arguments.flatMap Argument.lexemes) :=
    .map fun argument member => Argument.spells (proper argument member)
  unfold printArguments
  dsimp only
  split
  · exact spells.append (spells_enclose rfl rfl [] [] (by decide) (by decide)
      (spells_commas parts)) (stops_wrap rfl _ _ _)
  · exact spells.append (spells_enclose rfl rfl ['\n'] ['\n'] (by decide) (by decide)
      (spells_indent (spells_lines parts))) (stops_wrap rfl _ _ _)

theorem Directive.spells {directive : Directive} (proper : AllProper directive.lexemes) :
    Spells directive.print directive.lexemes := by
  simp only [Directive.lexemes, allProper_cons, allProper_append] at proper
  have owner : Spells ('@' :: directive.name.print)
      (.punctuator .atSign :: directive.name.lexemes) :=
    (Name.spells proper.2.1).mark rfl
  exact spells_printArguments owner proper.2.2

theorem spells_printDirectives {directives : List Directive}
    (proper : AllProper (directivesLexemes directives)) :
    Spells (printDirectives directives) (directivesLexemes directives) := by
  rw [directivesLexemes, allProper_flatMap] at proper
  exact spells_words (.map fun directive member => Directive.spells (proper directive member))

theorem NamedType.spells {type : NamedType} (proper : AllProper type.lexemes) :
    Spells type.print type.lexemes := Name.spells proper

mutual

theorem TypeRef.spells : (type : TypeRef) → AllProper type.lexemes → Spells type.print type.lexemes
  | .nullable type, proper => type.spells proper
  | .nonNull type _, proper => by
      simp only [TypeRef.lexemes, allProper_append] at proper
      exact (type.spells proper.1).append (Spells.nil.mark rfl) (Lexical.stops_cons rfl [])

theorem NullableType.spells :
    (type : NullableType) → AllProper type.lexemes → Spells type.print type.lexemes
  | .named type, proper => NamedType.spells proper
  | .list item _, proper => by
      simp only [NullableType.lexemes, allProper_cons, allProper_append] at proper
      exact ((item.spells proper.2.1).append (Spells.nil.mark rfl)
        (Lexical.stops_cons rfl [])).mark rfl

end

end GraphQL
