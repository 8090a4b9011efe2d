import GraphQL.Parser.TypeSystem
import GraphQL.Proofs.Parser.Reads.Executable

/-!
What the productions of the type system read.
-/

namespace GraphQL.Parser

section
variable {options : Options} {levels : Nat}

theorem description_reads :
    Reads options description descriptionLexemes (descriptionConforms options) := by
  intro s s' found here parsed
  unfold description at parsed
  rw [current_eq] at parsed
  split at parsed
  · rename_i isString
    obtain ⟨literal, s₁, read, parsed⟩ := bind_ok parsed
    cases parsed
    simp only [isDescription, Bool.or_eq_true, decide_eq_true_eq] at isString
    exact stringValue_reads here isString read
  · cases parsed
    exact ⟨.stay, rfl⟩

theorem operationTypeDefinition_reads :
    Reads options operationTypeDefinition OperationTypeDefinition.lexemes (·.conforms options) := by
  intro s s' found here parsed
  unfold operationTypeDefinition at parsed
  rw [current_eq] at parsed
  obtain ⟨sort, s₁, worded, parsed⟩ := bind_ok parsed
  obtain ⟨_, s₂, behind, parsed⟩ := bind_ok parsed
  obtain ⟨type, s₃, named, parsed⟩ := bind_ok parsed
  obtain ⟨loc, rfl, rfl, allowed⟩ := located_allowed parsed
  obtain ⟨word, _⟩ := operationType_reads here worded
  have colon := (fixes_mark .colon).expect_ok behind
  obtain ⟨last, typeOk⟩ := namedType_reads (colon.options.trans (word.options.trans here)) named
  have whole := word.append (colon.append last)
  refine ⟨whole, ?_⟩
  simp only [OperationTypeDefinition.conforms, typeOk, allowsLoc_after whole here allowed,
    Bool.and_self]

theorem schemaDefinition_reads :
    Reads options (schemaDefinition levels) SchemaDefinition.lexemes
      (·.conforms options levels) := by
  intro s s' found here parsed
  unfold schemaDefinition at parsed
  rw [current_eq] at parsed
  obtain ⟨text, s₁, described, parsed⟩ := bind_ok parsed
  obtain ⟨_, s₂, worded, parsed⟩ := bind_ok parsed
  obtain ⟨marks, s₃, marked, parsed⟩ := bind_ok parsed
  obtain ⟨types, s₄, listed, parsed⟩ := bind_ok parsed
  obtain ⟨loc, rfl, rfl, allowed⟩ := located_allowed parsed
  obtain ⟨first, textOk⟩ := description_reads here described
  have word := expectKeyword_ok worded
  have here₂ := word.options.trans (first.options.trans here)
  obtain ⟨second, marksOk⟩ := directives_reads here₂ marked
  obtain ⟨last, typesOk⟩ :=
    many_reads operationTypeDefinition_reads (second.options.trans here₂) listed
  simp only [Bool.and_eq_true] at typesOk
  have some' : types ≠ [] := by simpa using typesOk.1
  have braces : Moves s₃ (bracedLexemes OperationTypeDefinition.lexemes types) s' := by
    rw [bracedLexemes, enclose_items (fun item _ => item.lexemes_ne_nil) some']
    exact last
  have whole := first.append (word.append (second.append braces))
  refine ⟨whole, ?_⟩
  simp only [SchemaDefinition.conforms, textOk, marksOk, typesOk.1, typesOk.2,
    allowsLoc_after whole here allowed, Bool.and_self]

theorem inputValueDefinition_reads :
    Reads options (inputValueDefinition levels) InputValueDefinition.lexemes
      (·.conforms options levels) := by
  intro s s' found here parsed
  unfold inputValueDefinition at parsed
  rw [current_eq] at parsed
  obtain ⟨text, s₁, described, parsed⟩ := bind_ok parsed
  obtain ⟨key, s₂, named, parsed⟩ := bind_ok parsed
  obtain ⟨_, s₃, behind, parsed⟩ := bind_ok parsed
  obtain ⟨type, s₄, typed, parsed⟩ := bind_ok parsed
  obtain ⟨value, s₅, given, parsed⟩ := bind_ok parsed
  obtain ⟨marks, s₆, marked, parsed⟩ := bind_ok parsed
  obtain ⟨loc, rfl, rfl, allowed⟩ := located_allowed parsed
  obtain ⟨first, textOk⟩ := description_reads here described
  have here₁ := first.options.trans here
  obtain ⟨second, keyOk⟩ := name_reads here₁ named
  have colon := (fixes_mark .colon).expect_ok behind
  have here₃ := colon.options.trans (second.options.trans here₁)
  obtain ⟨third, typeOk⟩ := typeRef_reads levels here₃ typed
  have here₄ := third.options.trans here₃
  obtain ⟨fourth, valueOk⟩ := defaultValue_reads here₄ given
  obtain ⟨last, marksOk⟩ := directives_reads (fourth.options.trans here₄) marked
  have whole := (first.append second).append (colon.append ((third.append fourth).append last))
  refine ⟨whole, ?_⟩
  simp only [InputValueDefinition.conforms, textOk, keyOk, typeOk, valueOk, marksOk,
    allowsLoc_after whole here allowed, Bool.and_self]

theorem argumentDefinitions_reads :
    Reads options (argumentDefinitions levels) argumentDefinitionsLexemes
      (fun found => found.all (·.conforms options levels)) :=
  optionalMany_reads inputValueDefinition_reads InputValueDefinition.lexemes_ne_nil

theorem fieldDefinition_reads :
    Reads options (fieldDefinition levels) FieldDefinition.lexemes (·.conforms options levels) := by
  intro s s' found here parsed
  unfold fieldDefinition at parsed
  rw [current_eq] at parsed
  obtain ⟨text, s₁, described, parsed⟩ := bind_ok parsed
  obtain ⟨key, s₂, named, parsed⟩ := bind_ok parsed
  obtain ⟨given, s₃, listed, parsed⟩ := bind_ok parsed
  obtain ⟨_, s₄, behind, parsed⟩ := bind_ok parsed
  obtain ⟨type, s₅, typed, parsed⟩ := bind_ok parsed
  obtain ⟨marks, s₆, marked, parsed⟩ := bind_ok parsed
  obtain ⟨loc, rfl, rfl, allowed⟩ := located_allowed parsed
  obtain ⟨first, textOk⟩ := description_reads here described
  have here₁ := first.options.trans here
  obtain ⟨second, keyOk⟩ := name_reads here₁ named
  have here₂ := second.options.trans here₁
  obtain ⟨third, givenOk⟩ := argumentDefinitions_reads here₂ listed
  have colon := (fixes_mark .colon).expect_ok behind
  have here₄ := colon.options.trans (third.options.trans here₂)
  obtain ⟨fourth, typeOk⟩ := typeRef_reads levels here₄ typed
  obtain ⟨last, marksOk⟩ := directives_reads (fourth.options.trans here₄) marked
  have whole := ((first.append second).append third).append (colon.append (fourth.append last))
  refine ⟨whole, ?_⟩
  simp only [FieldDefinition.conforms, textOk, keyOk, givenOk, typeOk, marksOk,
    allowsLoc_after whole here allowed, Bool.and_self]

theorem enumValueName_reads :
    Reads options enumValueName Name.lexemes fun name =>
      name.conforms options && !isReservedValue name.value := by
  intro s s' found here parsed
  unfold enumValueName at parsed
  rw [current_eq] at parsed
  split at parsed
  · exact absurd parsed fail_ne_ok
  · rename_i free
    obtain ⟨moves, isOk⟩ := name_reads here parsed
    refine ⟨moves, ?_⟩
    rw [Token.value?, Moves.head moves] at free
    simp only [Lexeme.value?, Option.some.injEq, not_or] at free
    simp [isOk, isReservedValue, free]

theorem enumValueDefinition_reads :
    Reads options (enumValueDefinition levels) EnumValueDefinition.lexemes
      (·.conforms options levels) := by
  intro s s' found here parsed
  unfold enumValueDefinition at parsed
  rw [current_eq] at parsed
  obtain ⟨text, s₁, described, parsed⟩ := bind_ok parsed
  obtain ⟨key, s₂, named, parsed⟩ := bind_ok parsed
  obtain ⟨marks, s₃, marked, parsed⟩ := bind_ok parsed
  obtain ⟨loc, rfl, rfl, allowed⟩ := located_allowed parsed
  obtain ⟨first, textOk⟩ := description_reads here described
  have here₁ := first.options.trans here
  obtain ⟨second, keyOk⟩ := enumValueName_reads here₁ named
  obtain ⟨last, marksOk⟩ := directives_reads (second.options.trans here₁) marked
  have whole := (first.append second).append last
  refine ⟨whole, ?_⟩
  simp only [Bool.and_eq_true] at keyOk
  simp only [EnumValueDefinition.conforms, textOk, keyOk.1, keyOk.2, marksOk,
    allowsLoc_after whole here allowed, Bool.and_self]

section
variable {s s' : State} (here : s.options = options)
include here

theorem implementsInterfaces_reads {found : List NamedType}
    (parsed : implementsInterfaces s = .ok found s') :
    ∃ full, Moves s (interfacesLexemes full found) s' ∧ found.all (·.conforms options) = true := by
  unfold implementsInterfaces at parsed
  obtain ⟨taken, s₁, worded, parsed⟩ := bind_ok parsed
  rcases acceptKeyword_ok worded with ⟨rfl, word⟩ | ⟨rfl, _, rfl⟩
  · obtain ⟨full, moves, some', allOk⟩ :=
      delimited_reads namedType_reads (word.options.trans here) parsed
    refine ⟨full, ?_, allOk⟩
    rw [interfacesLexemes, if_neg (by simpa using some')]
    exact word.append moves
  · cases parsed
    exact ⟨false, .stay, rfl⟩

theorem unionMembers_reads {found : List NamedType} (parsed : unionMembers s = .ok found s') :
    ∃ full, Moves s (unionMembersLexemes full found) s' ∧
      found.all (·.conforms options) = true := by
  unfold unionMembers at parsed
  obtain ⟨taken, s₁, signed, parsed⟩ := bind_ok parsed
  rcases (fixes_mark .equals).accept_ok signed with ⟨rfl, sign⟩ | ⟨rfl, _, rfl⟩
  · obtain ⟨full, moves, some', allOk⟩ :=
      delimited_reads namedType_reads (sign.options.trans here) parsed
    refine ⟨full, ?_, allOk⟩
    rw [unionMembersLexemes, if_neg (by simpa using some')]
    exact sign.append moves
  · cases parsed
    exact ⟨false, .stay, rfl⟩

theorem braced_reads {item : Parser α} {spell : α → List Lexeme} {ok : α → Bool} {found : List α}
    (each : Reads options item spell ok) (some' : ∀ item, spell item ≠ [])
    (parsed : braced item s = .ok found s') :
    Moves s (bracedLexemes spell found) s' ∧ found.all ok = true ∧
      (found.isEmpty = true → s'.current.lexeme ≠ .punctuator .braceOpen) := by
  obtain ⟨moves, allOk⟩ := optionalMany_reads each some' here parsed
  refine ⟨moves, allOk, ?_⟩
  intro none
  rw [List.isEmpty_iff] at none
  subst none
  exact optionalMany_none parsed

theorem fielded_reads {make : List NamedType → List FieldDefinition → TypeBody}
    {marks : List Directive} {body : TypeBody}
    (parsed : (do
      let interfaces ← implementsInterfaces
      let directives ← directives true levels
      return (directives, make interfaces (← braced (fieldDefinition levels)))) s =
        .ok (marks, body) s') :
    ∃ full interfaces fields, body = make interfaces fields ∧
      Moves s (interfacesLexemes full interfaces ++ directivesLexemes marks ++
        bracedLexemes FieldDefinition.lexemes fields) s' ∧
      directivesConform options true levels marks = true ∧
      (interfaces.all (·.conforms options) && fields.all (·.conforms options levels)) = true ∧
      (fields.isEmpty = true → s'.current.lexeme ≠ .punctuator .braceOpen) := by
  obtain ⟨interfaces, s₁, named, parsed⟩ := bind_ok parsed
  obtain ⟨given, s₂, marked, parsed⟩ := bind_ok parsed
  obtain ⟨fields, s₃, listed, parsed⟩ := bind_ok parsed
  cases parsed
  obtain ⟨full, first, interfacesOk⟩ := implementsInterfaces_reads here named
  have here₁ := first.options.trans here
  obtain ⟨second, marksOk⟩ := directives_reads here₁ marked
  obtain ⟨last, fieldsOk, ends⟩ := braced_reads (second.options.trans here₁) fieldDefinition_reads
    FieldDefinition.lexemes_ne_nil listed
  exact ⟨full, interfaces, fields, rfl, (first.append second).append last, marksOk,
    Bool.and_eq_true_iff.mpr ⟨interfacesOk, fieldsOk⟩, ends⟩

theorem listed_reads {make : List α → TypeBody} {item : Parser α} {spell : α → List Lexeme}
    {ok : α → Bool} {marks : List Directive} {body : TypeBody} (each : Reads options item spell ok)
    (some' : ∀ item, spell item ≠ [])
    (parsed : (do
      let directives ← directives true levels
      return (directives, make (← braced item))) s = .ok (marks, body) s') :
    ∃ items, body = make items ∧
      Moves s (directivesLexemes marks ++ bracedLexemes spell items) s' ∧
      directivesConform options true levels marks = true ∧ items.all ok = true ∧
      (items.isEmpty = true → s'.current.lexeme ≠ .punctuator .braceOpen) := by
  obtain ⟨given, s₁, marked, parsed⟩ := bind_ok parsed
  obtain ⟨items, s₂, listed, parsed⟩ := bind_ok parsed
  cases parsed
  obtain ⟨first, marksOk⟩ := directives_reads here marked
  obtain ⟨last, itemsOk, ends⟩ := braced_reads (first.options.trans here) each some' listed
  exact ⟨items, rfl, first.append last, marksOk, itemsOk, ends⟩

theorem typeBody_reads (form : TypeForm) {marks : List Directive} {body : TypeBody}
    (parsed : typeBody levels form s = .ok (marks, body) s') :
    ∃ full, Moves s (body.interfacesLexemes full ++ directivesLexemes marks ++
        body.membersLexemes full) s' ∧ body.form = form ∧
      directivesConform options true levels marks = true ∧ body.conforms options levels = true ∧
      (body.lacksBraces = true → s'.current.lexeme ≠ .punctuator .braceOpen) := by
  cases form with
  | scalar =>
      obtain ⟨given, s₁, marked, parsed⟩ := bind_ok parsed
      cases parsed
      obtain ⟨moves, marksOk⟩ := directives_reads here marked
      refine ⟨false, ?_, rfl, marksOk, rfl, by simp [TypeBody.lacksBraces]⟩
      simpa [TypeBody.interfacesLexemes, TypeBody.interfaces, interfacesLexemes,
        TypeBody.membersLexemes] using moves
  | object | interface =>
      obtain ⟨full, interfaces, fields, rfl, moves, marksOk, partsOk, ends⟩ :=
        fielded_reads here parsed
      exact ⟨full, moves, rfl, marksOk, partsOk, ends⟩
  | union =>
      obtain ⟨given, s₁, marked, parsed⟩ := bind_ok parsed
      obtain ⟨members, s₂, listed, parsed⟩ := bind_ok parsed
      cases parsed
      obtain ⟨first, marksOk⟩ := directives_reads here marked
      obtain ⟨full, last, membersOk⟩ := unionMembers_reads (first.options.trans here) listed
      exact ⟨full, first.append last, rfl, marksOk, membersOk, by simp [TypeBody.lacksBraces]⟩
  | enum =>
      obtain ⟨values, rfl, moves, marksOk, valuesOk, ends⟩ :=
        listed_reads here enumValueDefinition_reads EnumValueDefinition.lexemes_ne_nil parsed
      exact ⟨false, moves, rfl, marksOk, valuesOk, ends⟩
  | inputObject =>
      obtain ⟨fields, rfl, moves, marksOk, fieldsOk, ends⟩ :=
        listed_reads here inputValueDefinition_reads InputValueDefinition.lexemes_ne_nil parsed
      exact ⟨false, moves, rfl, marksOk, fieldsOk, ends⟩

theorem typeDefinition_reads (form : TypeForm) {found : TypeDefinition}
    (parsed : typeDefinition levels form s = .ok found s') :
    ∃ full, Moves s (found.lexemes full) s' ∧ found.conforms options levels = true ∧
      (found.body.lacksBraces = true → s'.current.lexeme ≠ .punctuator .braceOpen) := by
  unfold typeDefinition at parsed
  rw [current_eq] at parsed
  obtain ⟨text, s₁, described, parsed⟩ := bind_ok parsed
  obtain ⟨_, s₂, worded, parsed⟩ := bind_ok parsed
  obtain ⟨key, s₃, named, parsed⟩ := bind_ok parsed
  obtain ⟨⟨marks, body⟩, s₄, made, parsed⟩ := bind_ok parsed
  obtain ⟨loc, rfl, rfl, allowed⟩ := located_allowed parsed
  obtain ⟨first, textOk⟩ := description_reads here described
  have word := expectKeyword_ok worded
  have here₂ := word.options.trans (first.options.trans here)
  obtain ⟨second, keyOk⟩ := name_reads here₂ named
  obtain ⟨full, last, rfl, marksOk, bodyOk, ends⟩ :=
    typeBody_reads (second.options.trans here₂) form made
  have whole := first.append (word.append (second.append last))
  refine ⟨full, by simpa [TypeDefinition.lexemes, TypeBody.lexemes] using whole, ?_, ends⟩
  simp only [TypeDefinition.conforms, textOk, keyOk, marksOk, bodyOk,
    allowsLoc_after whole here allowed, Bool.and_self]

theorem schemaExtension_reads {found : SchemaExtension}
    (parsed : schemaExtension levels s = .ok found s') :
    Moves s found.lexemes s' ∧ found.conforms options levels = true ∧
      (found.operationTypes.isEmpty = true → s'.current.lexeme ≠ .punctuator .braceOpen) := by
  unfold schemaExtension at parsed
  rw [current_eq] at parsed
  obtain ⟨_, s₁, extended, parsed⟩ := bind_ok parsed
  obtain ⟨_, s₂, worded, parsed⟩ := bind_ok parsed
  obtain ⟨marks, s₃, marked, parsed⟩ := bind_ok parsed
  obtain ⟨types, s₄, listed, parsed⟩ := bind_ok parsed
  split at parsed
  · exact absurd parsed fail_ne_ok
  · rename_i adds
    obtain ⟨loc, rfl, rfl, allowed⟩ := located_allowed parsed
    have extend := expectKeyword_ok extended
    have word := expectKeyword_ok worded
    have here₂ := word.options.trans (extend.options.trans here)
    obtain ⟨first, marksOk⟩ := directives_reads here₂ marked
    obtain ⟨last, typesOk, ends⟩ := braced_reads (first.options.trans here₂)
      operationTypeDefinition_reads OperationTypeDefinition.lexemes_ne_nil listed
    have whole := extend.append (word.append (first.append last))
    refine ⟨whole, ?_, ends⟩
    simp only [SchemaExtension.conforms, marksOk, typesOk, adds,
      allowsLoc_after whole here allowed, Bool.and_self, Bool.not_false]

theorem typeExtension_reads (form : TypeForm) {found : TypeExtension}
    (parsed : typeExtension levels form s = .ok found s') :
    ∃ full, Moves s (found.lexemes full) s' ∧ found.conforms options levels = true ∧
      (found.body.lacksBraces = true → s'.current.lexeme ≠ .punctuator .braceOpen) := by
  unfold typeExtension at parsed
  rw [current_eq] at parsed
  obtain ⟨_, s₁, extended, parsed⟩ := bind_ok parsed
  obtain ⟨_, s₂, worded, parsed⟩ := bind_ok parsed
  obtain ⟨key, s₃, named, parsed⟩ := bind_ok parsed
  obtain ⟨⟨marks, body⟩, s₄, made, parsed⟩ := bind_ok parsed
  dsimp only at parsed
  split at parsed
  · exact absurd parsed fail_ne_ok
  · rename_i adds
    obtain ⟨loc, rfl, rfl, allowed⟩ := located_allowed parsed
    have extend := expectKeyword_ok extended
    have word := expectKeyword_ok worded
    have here₂ := word.options.trans (extend.options.trans here)
    obtain ⟨first, keyOk⟩ := name_reads here₂ named
    obtain ⟨full, last, rfl, marksOk, bodyOk, ends⟩ :=
      typeBody_reads (first.options.trans here₂) form made
    have whole := extend.append (word.append (first.append last))
    refine ⟨full, by simpa [TypeExtension.lexemes, TypeBody.lexemes] using whole, ?_, ends⟩
    simp only [TypeExtension.conforms, keyOk, marksOk, bodyOk, adds,
      allowsLoc_after whole here allowed, Bool.and_self, Bool.not_false]

end

theorem directiveLocation_reads :
    Reads options directiveLocation Name.lexemes fun place =>
      place.conforms options && (DirectiveLocation.ofText? place.value).isSome := by
  intro s s' found here parsed
  unfold directiveLocation at parsed
  rw [current_eq] at parsed
  obtain ⟨place, s₁, named, parsed⟩ := bind_ok parsed
  split at parsed
  · rename_i known
    cases parsed
    obtain ⟨moves, isOk⟩ := name_reads here named
    exact ⟨moves, Bool.and_eq_true_iff.mpr ⟨isOk, known⟩⟩
  · exact absurd parsed fail_ne_ok

theorem directiveDefinition_reads {s s' : State} (here : s.options = options)
    {found : DirectiveDefinition} (parsed : directiveDefinition levels s = .ok found s') :
    ∃ full, Moves s (found.lexemes full) s' ∧ found.conforms options levels = true := by
  unfold directiveDefinition at parsed
  rw [current_eq] at parsed
  obtain ⟨text, s₁, described, parsed⟩ := bind_ok parsed
  obtain ⟨_, s₂, worded, parsed⟩ := bind_ok parsed
  obtain ⟨_, s₃, signed, parsed⟩ := bind_ok parsed
  obtain ⟨key, s₄, named, parsed⟩ := bind_ok parsed
  obtain ⟨given, s₅, listed, parsed⟩ := bind_ok parsed
  obtain ⟨repeats, s₆, asked, parsed⟩ := bind_ok parsed
  obtain ⟨_, s₇, led, parsed⟩ := bind_ok parsed
  obtain ⟨places, s₈, located, parsed⟩ := bind_ok parsed
  obtain ⟨loc, rfl, rfl, allowed⟩ := located_allowed parsed
  obtain ⟨first, textOk⟩ := description_reads here described
  have word := expectKeyword_ok worded
  have sign := (fixes_mark .atSign).expect_ok signed
  have here₃ := sign.options.trans (word.options.trans (first.options.trans here))
  obtain ⟨second, keyOk⟩ := name_reads here₃ named
  have here₄ := second.options.trans here₃
  obtain ⟨third, givenOk⟩ := argumentDefinitions_reads here₄ listed
  have here₅ := third.options.trans here₄
  have fourth : Moves s₅ (if repeats then [.name "repeatable"] else []) s₆ := by
    rcases acceptKeyword_ok asked with ⟨rfl, word⟩ | ⟨rfl, _, rfl⟩
    · exact word
    · exact .stay
  have on := expectKeyword_ok led
  have here₇ := on.options.trans (fourth.options.trans here₅)
  obtain ⟨full, last, some', placesOk⟩ := delimited_reads directiveLocation_reads here₇ located
  have whole := first.append (word.append (sign.append
    (((second.append third).append fourth).append (on.append last))))
  refine ⟨full, whole, ?_⟩
  have placed : places.isEmpty = false := by simpa using some'
  simp only [DirectiveDefinition.conforms, textOk, keyOk, givenOk, placed, placesOk,
    allowsLoc_after whole here allowed, Bool.and_self, Bool.not_false]

end

end GraphQL.Parser
