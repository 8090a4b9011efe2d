import GraphQL.Proofs.Spelling
import GraphQL.Proofs.Rules

/-!
What a text may write or leave out, with the same tree for it. A printed document leaves it out.
-/

namespace GraphQL

/-- What opens a list whose first item may have a mark in front of it, and that mark. -/
inductive OpensList : Lexeme → Punctuator → Prop
  | interfaces : OpensList (.name "implements") .ampersand
  | members : OpensList (.punctuator .equals) .pipe
  | places : OpensList (.name "on") .pipe

/-- A definition in two spellings, the second with nothing in it that may be left out. -/
inductive Definition.LeavesOut (definition : Definition) : List Lexeme → List Lexeme → Prop
  | nothing (lexemes : List Lexeme) : LeavesOut definition lexemes lexemes
  | keyword (lexemes : List Lexeme) (alone : definition.isShorthand = true) :
      LeavesOut definition (.name "query" :: lexemes) lexemes
  | mark {opener : Lexeme} {mark : Punctuator} (opens : OpensList opener mark)
      (before behind : List Lexeme) : LeavesOut definition
        (before ++ opener :: .punctuator mark :: behind) (before ++ opener :: behind)

namespace Definition.LeavesOut

variable {definition : Definition} {written kept : List Lexeme}

theorem length_le (leaves : definition.LeavesOut written kept) : kept.length ≤ written.length := by
  cases leaves with
  | nothing => exact Nat.le_refl _
  | keyword => exact Nat.le_succ _
  | mark => simp

theorem eq_of_length_le (leaves : definition.LeavesOut written kept)
    (short : written.length ≤ kept.length) : written = kept := by
  cases leaves with
  | nothing => rfl
  | keyword => exact absurd short (Nat.not_succ_le_self _)
  | mark _ before behind =>
      simp only [List.length_append, List.length_cons] at short
      omega

theorem subset (leaves : definition.LeavesOut written kept) : kept ⊆ written := by
  cases leaves with
  | nothing => exact List.Subset.refl _
  | keyword => exact List.subset_cons_self _ _
  | mark _ before behind =>
      intro found member
      simp only [List.mem_append, List.mem_cons] at member ⊢
      rcases member with first | rfl | last
      · exact .inl first
      · exact .inr (.inl rfl)
      · exact .inr (.inr (.inr last))

end Definition.LeavesOut

theorem Definition.leavesOut_list (definition : Definition) {opener : Lexeme} {mark : Punctuator}
    (opens : OpensList opener mark) (before items behind : List Lexeme) :
    definition.LeavesOut (before ++ (opener :: (optionalMark true mark ++ items) ++ behind))
      (before ++ (opener :: (optionalMark false mark ++ items) ++ behind)) :=
  .mark opens before (items ++ behind)

theorem TypeBody.leavesOut (definition : Definition) (body : TypeBody) (front : List Lexeme)
    (name : Name) (directives : List Directive) :
    definition.LeavesOut (front ++ body.lexemes true name directives)
      (front ++ body.lexemes false name directives) := by
  cases body with
  | scalar | enum | inputObject => exact .nothing _
  | object interfaces fields | interface interfaces fields =>
      cases interfaces with
      | nil => exact .nothing _
      | cons first rest =>
          have list := definition.leavesOut_list .interfaces (front ++ name.lexemes)
            (separatedLexemes .ampersand NamedType.lexemes (first :: rest))
            (directivesLexemes directives ++ bracedLexemes FieldDefinition.lexemes fields)
          simpa [TypeBody.lexemes, TypeBody.interfacesLexemes, TypeBody.interfaces,
            GraphQL.interfacesLexemes, TypeBody.membersLexemes] using list
  | union members =>
      cases members with
      | nil => exact .nothing _
      | cons first rest =>
          have list := definition.leavesOut_list .members
            (front ++ name.lexemes ++ directivesLexemes directives)
            (separatedLexemes .pipe NamedType.lexemes (first :: rest)) []
          simpa [TypeBody.lexemes, TypeBody.interfacesLexemes, TypeBody.interfaces,
            GraphQL.interfacesLexemes, TypeBody.membersLexemes, unionMembersLexemes] using list

theorem OperationDefinition.leavesOut (operation : OperationDefinition) :
    (Definition.operation operation).LeavesOut (operation.lexemes true)
      (operation.lexemes false) := by
  by_cases alone : operation.isShorthand = true
  · have whole : operation.lexemes true = .name "query" :: operation.lexemes false := by
      have parts := alone
      simp only [OperationDefinition.isShorthand, Bool.and_eq_true, decide_eq_true_eq,
        Option.isNone_iff_eq_none, List.isEmpty_iff] at parts
      obtain ⟨⟨⟨sort, name⟩, declared⟩, directives⟩ := parts
      simp [OperationDefinition.lexemes, alone, sort, name, declared, directives,
        OperationType.keyword, optionalLexemes, variableDefinitionsLexemes, directivesLexemes,
        enclose]
    rw [whole]
    exact .keyword _ alone
  · have same : operation.lexemes true = operation.lexemes false := by
      simp [OperationDefinition.lexemes, alone]
    rw [same]
    exact .nothing _

/-- Of its two spellings, a definition is printed in the one with nothing that may be left out. -/
theorem Definition.leavesOut (definition : Definition) (full : Bool) :
    definition.LeavesOut (definition.lexemes full) (definition.lexemes false) := by
  cases full with
  | false => exact .nothing _
  | true =>
      cases definition with
      | operation inner => exact inner.leavesOut
      | fragment | schema | schemaExtension => exact .nothing _
      | type inner =>
          have body := inner.body.leavesOut (.type inner)
            (descriptionLexemes inner.description ++ [.name inner.body.form.keyword])
            inner.name inner.directives
          simpa [Definition.lexemes, TypeDefinition.lexemes] using body
      | directive inner =>
          have list := (Definition.directive inner).leavesOut_list .places
            (descriptionLexemes inner.description ++ .name "directive" :: .punctuator .atSign ::
              (inner.name.lexemes ++ argumentDefinitionsLexemes inner.arguments ++
                (if inner.repeatable then [.name "repeatable"] else [])))
            (separatedLexemes .pipe Name.lexemes inner.locations) []
          simpa [Definition.lexemes, DirectiveDefinition.lexemes] using list
      | typeExtension inner =>
          exact inner.body.leavesOut (.typeExtension inner)
            [.name "extend", .name inner.body.form.keyword] inner.name inner.directives

end GraphQL
