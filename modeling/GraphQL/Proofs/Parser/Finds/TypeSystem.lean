import GraphQL.Proofs.Parser.Finds.Executable

/-!
Definitions of the type system that lie ahead are found.
-/

namespace GraphQL.Parser

def OpensMember (next : Lexeme) : Prop :=
  next.kind = .name ∨ next.kind = .string ∨ next.kind = .blockString

theorem OpensMember.apart {next : Lexeme} (opens : OpensMember next) (mark : Punctuator) :
    (next ≠ .punctuator mark ∧ next ≠ .eof) ∧ Ends next := by
  cases next <;> simp_all [OpensMember, Lexeme.kind, Ends, goesOn]

theorem kind_lexeme (literal : StringValue) :
    literal.lexeme.kind = .string ∨ literal.lexeme.kind = .blockString := by
  unfold StringValue.lexeme
  split
  · exact .inr rfl
  · exact .inl rfl

theorem described_begins (text : Option StringValue) (key : Name) (rest : List Lexeme) :
    ∃ first more, descriptionLexemes text ++ key.lexemes ++ rest = first :: more ∧
      OpensMember first := by
  cases text with
  | none => exact ⟨_, _, rfl, .inl rfl⟩
  | some literal => exact ⟨_, _, rfl, .inr (kind_lexeme literal)⟩

theorem inputValueDefinition_begins {ok : InputValueDefinition → Bool} :
    Begins InputValueDefinition.lexemes ok OpensMember :=
  fun item _ => described_begins item.description item.name _

theorem fieldDefinition_begins {ok : FieldDefinition → Bool} :
    Begins FieldDefinition.lexemes ok OpensMember := by
  intro item _
  rw [FieldDefinition.lexemes, List.append_assoc]
  exact described_begins item.description item.name _

theorem enumValueDefinition_begins {ok : EnumValueDefinition → Bool} :
    Begins EnumValueDefinition.lexemes ok OpensMember :=
  fun item _ => described_begins item.description item.name _

theorem operationTypeDefinition_begins {ok : OperationTypeDefinition → Bool} :
    Begins OperationTypeDefinition.lexemes ok IsName := by
  intro item _
  exact ⟨_, _, rfl, item.operation.keyword, rfl⟩

theorem namedType_begins {ok : NamedType → Bool} {mark : Punctuator} :
    Begins NamedType.lexemes ok fun next => next ≠ .eof ∧ next ≠ .punctuator mark := by
  intro item _
  exact ⟨_, _, rfl, by simp, by simp⟩

section
variable {options : Options} (bare : options.noLocation = true) {levels : Nat}
include bare

theorem description_finds :
    Finds options levels description descriptionLexemes (descriptionConforms options)
      fun _ => IsName := by
  intro s s' node ready isOk moves follows
  unfold description
  rw [current_eq]
  cases node with
  | none =>
      obtain rfl := Moves.nil_eq moves
      obtain ⟨text, same⟩ := follows
      have noString : isDescription s.current = false := by
        simp [isDescription, Token.kind, same, Lexeme.kind]
      rw [noString]
      rfl
  | some literal =>
      have isString : isDescription s.current = true := by
        simp only [isDescription, Token.kind, Moves.head moves, Bool.or_eq_true, decide_eq_true_eq]
        exact kind_lexeme literal
      rw [isString, if_pos rfl, bind_eq (stringValue_finds bare ready isOk moves)]
      rfl

theorem operationTypeDefinition_finds :
    Finds options levels operationTypeDefinition OperationTypeDefinition.lexemes
      (·.conforms options) fun _ _ => True := by
  intro s s' node ready isOk moves _
  obtain ⟨sort, type, loc⟩ := node
  simp only [OperationTypeDefinition.conforms, Bool.and_eq_true] at isOk
  obtain rfl := loc_none bare isOk.2
  obtain ⟨s₁, word, onward⟩ := Moves.uncons moves
  obtain ⟨s₂, colon, last⟩ := onward.uncons
  have ready₂ := colon.ready (word.ready ready)
  have named := namedType_finds bare ready₂ isOk.1 last trivial
  unfold operationTypeDefinition
  rw [current_eq, bind_eq (operationType_finds word), bind_eq ((fixes_mark .colon).expect_eq colon),
    bind_eq named, bind_eq (span_none bare (last.ready ready₂) _)]
  rfl

theorem schemaDefinition_finds :
    Finds options levels (schemaDefinition levels) SchemaDefinition.lexemes
      (·.conforms options levels) fun _ _ => True := by
  intro s s' node ready isOk moves _
  obtain ⟨text, marks, types, loc⟩ := node
  simp only [SchemaDefinition.conforms, Bool.and_eq_true] at isOk
  obtain ⟨⟨⟨⟨textOk, marksOk⟩, some'⟩, typesOk⟩, locOk⟩ := isOk
  obtain rfl := loc_none bare locOk
  obtain ⟨s₁, first, onward⟩ := Moves.split moves
  obtain ⟨s₂, word, behind⟩ := onward.uncons
  obtain ⟨s₃, second, last⟩ := behind.split
  have nonempty : types ≠ [] := by simpa using some'
  rw [bracedLexemes, enclose_items (fun item _ => item.lexemes_ne_nil) nonempty] at last
  have ready₁ := first.ready ready
  have ready₂ := word.ready ready₁
  have ready₃ := second.ready ready₂
  have ends₃ : Ends s₃.current.lexeme := by
    rw [last.head]
    rfl
  have described := description_finds bare ready textOk first ⟨_, word.head⟩
  have marked := directives_finds bare ready₂ marksOk second ends₃.noDirective
  have listed :=
    many_finds (operationTypeDefinition_finds bare) operationTypeDefinition_begins
      (fun _ isName => isName.apart .braceClose) trivial ready₃
      (Bool.and_eq_true_iff.mpr ⟨some', typesOk⟩) last trivial
  unfold schemaDefinition
  rw [current_eq, bind_eq described, bind_eq (expectKeyword_eq word), bind_eq marked,
    bind_eq listed, bind_eq (span_none bare (last.ready ready₃) _)]
  rfl

theorem inputValueDefinition_finds :
    Finds options levels (inputValueDefinition levels) InputValueDefinition.lexemes
      (·.conforms options levels) fun _ => Ends := by
  intro s s' node ready isOk moves follows
  obtain ⟨text, key, type, value, marks, loc⟩ := node
  simp only [InputValueDefinition.conforms, Bool.and_eq_true] at isOk
  obtain ⟨⟨⟨⟨⟨textOk, keyOk⟩, typeOk⟩, valueOk⟩, marksOk⟩, locOk⟩ := isOk
  obtain rfl := loc_none bare locOk
  obtain ⟨s₂, heads, behind⟩ := Moves.split moves
  obtain ⟨s₁, first, second⟩ := heads.split
  obtain ⟨s₃, colon, onward⟩ := behind.uncons
  obtain ⟨s₅, given, last⟩ := onward.split
  obtain ⟨s₄, third, fourth⟩ := given.split
  have ready₁ := first.ready ready
  have ready₂ := second.ready ready₁
  have ready₃ := colon.ready ready₂
  have ready₄ := third.ready ready₃
  have ready₅ := fourth.ready ready₄
  have noDefault : s₅.current.lexeme ≠ .punctuator .equals :=
    last.ne_of_heads head_directives (by simp) (follows.ne rfl)
  have noBang₅ : s₅.current.lexeme ≠ .punctuator .bang :=
    last.ne_of_heads head_directives (by simp) (follows.ne rfl)
  have noBang : s₄.current.lexeme ≠ .punctuator .bang :=
    fourth.ne_of_heads head_default (by simp) noBang₅
  have described := description_finds bare ready textOk first ⟨_, Moves.head second⟩
  have named := name_finds bare ready₁ keyOk second trivial
  have typed := typeRef_finds bare levels ready₃ typeOk third noBang
  have valued := defaultValue_finds bare ready₄ valueOk fourth noDefault
  have marked := directives_finds bare ready₅ marksOk last follows.noDirective
  unfold inputValueDefinition
  rw [current_eq, bind_eq described, bind_eq named, bind_eq ((fixes_mark .colon).expect_eq colon),
    bind_eq typed, bind_eq valued, bind_eq marked,
    bind_eq (span_none bare (last.ready ready₅) _)]
  rfl

theorem argumentDefinitions_finds :
    Finds options levels (argumentDefinitions levels) argumentDefinitionsLexemes
      (fun found => found.all (·.conforms options levels))
      fun _ next => next ≠ .punctuator .parenOpen := by
  intro s s' node ready isOk moves follows
  exact optionalMany_finds (@inputValueDefinition_finds _ bare _) inputValueDefinition_begins
    (fun _ opens => opens.apart .parenClose) rfl ready isOk moves fun _ => follows

theorem fieldDefinition_finds :
    Finds options levels (fieldDefinition levels) FieldDefinition.lexemes
      (·.conforms options levels) fun _ => Ends := by
  intro s s' node ready isOk moves follows
  obtain ⟨text, key, given, type, marks, loc⟩ := node
  simp only [FieldDefinition.conforms, Bool.and_eq_true] at isOk
  obtain ⟨⟨⟨⟨⟨textOk, keyOk⟩, givenOk⟩, typeOk⟩, marksOk⟩, locOk⟩ := isOk
  obtain rfl := loc_none bare locOk
  obtain ⟨s₃, most, behind⟩ := Moves.split moves
  obtain ⟨s₂, heads, third⟩ := most.split
  obtain ⟨s₁, first, second⟩ := heads.split
  obtain ⟨s₄, colon, onward⟩ := behind.uncons
  obtain ⟨s₅, fourth, last⟩ := onward.split
  have ready₁ := first.ready ready
  have ready₂ := second.ready ready₁
  have ready₄ := colon.ready (third.ready ready₂)
  have ready₅ := fourth.ready ready₄
  have noList : s₃.current.lexeme ≠ .punctuator .parenOpen := by
    rw [colon.head]
    simp
  have noBang : s₅.current.lexeme ≠ .punctuator .bang :=
    last.ne_of_heads head_directives (by simp) (follows.ne rfl)
  have described := description_finds bare ready textOk first ⟨_, Moves.head second⟩
  have named := name_finds bare ready₁ keyOk second trivial
  have listed := argumentDefinitions_finds bare ready₂ givenOk third noList
  have typed := typeRef_finds bare levels ready₄ typeOk fourth noBang
  have marked := directives_finds bare ready₅ marksOk last follows.noDirective
  unfold fieldDefinition
  rw [current_eq, bind_eq described, bind_eq named, bind_eq listed,
    bind_eq ((fixes_mark .colon).expect_eq colon), bind_eq typed, bind_eq marked,
    bind_eq (span_none bare (last.ready ready₅) _)]
  rfl

theorem enumValueName_finds :
    Finds options levels enumValueName Name.lexemes
      (fun name => name.conforms options && !isReservedValue name.value) fun _ _ => True := by
  intro s s' node ready isOk moves _
  simp only [Bool.and_eq_true, Bool.not_eq_true'] at isOk
  have free : ¬(s.current.value? = some "true" ∨ s.current.value? = some "false" ∨
      s.current.value? = some "null") := by
    rw [Token.value?, Moves.head moves]
    simpa [isReservedValue, Lexeme.value?, and_assoc] using isOk.2
  unfold enumValueName
  rw [current_eq, if_neg free]
  exact name_finds bare ready isOk.1 moves trivial

theorem enumValueDefinition_finds :
    Finds options levels (enumValueDefinition levels) EnumValueDefinition.lexemes
      (·.conforms options levels) fun _ => Ends := by
  intro s s' node ready isOk moves follows
  obtain ⟨text, key, marks, loc⟩ := node
  simp only [EnumValueDefinition.conforms, Bool.and_eq_true] at isOk
  obtain ⟨⟨⟨⟨textOk, keyOk⟩, keyFree⟩, marksOk⟩, locOk⟩ := isOk
  obtain rfl := loc_none bare locOk
  obtain ⟨s₂, heads, last⟩ := Moves.split moves
  obtain ⟨s₁, first, second⟩ := heads.split
  have ready₁ := first.ready ready
  have ready₂ := second.ready ready₁
  have described := description_finds bare ready textOk first ⟨_, Moves.head second⟩
  have named := enumValueName_finds bare ready₁
    (Bool.and_eq_true_iff.mpr ⟨keyOk, keyFree⟩) second trivial
  have marked := directives_finds bare ready₂ marksOk last follows.noDirective
  unfold enumValueDefinition
  rw [current_eq, bind_eq described, bind_eq named, bind_eq marked,
    bind_eq (span_none bare (last.ready ready₂) _)]
  rfl

theorem implementsInterfaces_finds {full : Bool} :
    Finds options levels implementsInterfaces (interfacesLexemes full)
      (fun found => found.all (·.conforms options))
      fun _ next => next ≠ .name "implements" ∧ next ≠ .punctuator .ampersand := by
  intro s s' node ready isOk moves follows
  unfold implementsInterfaces
  by_cases none : node = []
  · subst none
    obtain rfl := Moves.nil_eq moves
    rw [bind_eq (acceptKeyword_false follows.1)]
    rfl
  have some' : node.isEmpty = false := by simpa using none
  rw [interfacesLexemes, some', if_neg Bool.false_ne_true] at moves
  obtain ⟨s₁, word, onward⟩ := moves.uncons
  rw [bind_eq (acceptKeyword_true word), if_pos rfl]
  exact delimited_finds (namedType_finds bare) namedType_begins (word.ready ready)
    (by simp [some', isOk]) onward follows.2

theorem unionMembers_finds {full : Bool} :
    Finds options levels unionMembers (unionMembersLexemes full)
      (fun found => found.all (·.conforms options)) fun _ => Ends := by
  intro s s' node ready isOk moves follows
  unfold unionMembers
  by_cases none : node = []
  · subst none
    obtain rfl := Moves.nil_eq moves
    rw [bind_eq ((fixes_mark .equals).accept_false (Ends.ne follows rfl))]
    rfl
  have some' : node.isEmpty = false := by simpa using none
  have noPipe : s'.current.lexeme ≠ .punctuator .pipe := Ends.ne follows rfl
  rw [unionMembersLexemes, some', if_neg Bool.false_ne_true] at moves
  obtain ⟨s₁, sign, onward⟩ := moves.uncons
  rw [bind_eq ((fixes_mark .equals).accept_true sign), if_pos rfl]
  exact delimited_finds (namedType_finds bare) namedType_begins (sign.ready ready)
    (by simp [some', isOk]) onward noPipe

omit bare in
theorem braced_finds {item : Parser α} {spell : α → List Lexeme} {ok : α → Bool}
    {sort follow : Lexeme → Prop} (each : Finds options levels item spell ok fun _ => follow)
    (begins : Begins spell ok sort)
    (apart : ∀ next, sort next → (next ≠ .punctuator .braceClose ∧ next ≠ .eof) ∧ follow next)
    (closes : follow (.punctuator .braceClose)) :
    Finds options levels (braced item) (bracedLexemes spell) (fun items => items.all ok)
      fun items next => items.isEmpty = true → next ≠ .punctuator .braceOpen := by
  intro s s' node ready isOk moves follows
  have follows : node.isEmpty = true → s'.current.lexeme ≠ .punctuator .braceOpen := follows
  rw [List.isEmpty_iff] at follows
  exact optionalMany_finds each begins apart closes ready isOk moves follows

/-- What stands behind a type: nothing that one could go on with. -/
structure EndsType (body : TypeBody) (next : Lexeme) : Prop where
  ends : Ends next
  noInterfaces : next ≠ .name "implements"
  noBraces : body.lacksBraces = true → next ≠ .punctuator .braceOpen

section
variable {s s' : State} (ready : s.Ready options levels) {marks : List Directive}
  (marksOk : directivesConform options true levels marks = true)
include ready marksOk

theorem fielded_finds {full : Bool} {make : List NamedType → List FieldDefinition → TypeBody}
    {interfaces : List NamedType} {fields : List FieldDefinition}
    (interfacesOk : interfaces.all (·.conforms options) = true)
    (fieldsOk : fields.all (·.conforms options levels) = true)
    (moves : Moves s (interfacesLexemes full interfaces ++ directivesLexemes marks ++
      bracedLexemes FieldDefinition.lexemes fields) s')
    (ends : Ends s'.current.lexeme) (noInterfaces : s'.current.lexeme ≠ .name "implements")
    (noBraces : fields.isEmpty = true → s'.current.lexeme ≠ .punctuator .braceOpen) :
    (do
      let interfaces ← implementsInterfaces
      let directives ← directives true levels
      return (directives, make interfaces (← braced (fieldDefinition levels)))) s =
        .ok (marks, make interfaces fields) s' := by
  obtain ⟨s₂, heads, last⟩ := moves.split
  obtain ⟨s₁, first, second⟩ := heads.split
  have ready₁ := first.ready ready
  have ready₂ := second.ready ready₁
  have ends₂ : Ends s₂.current.lexeme := last.ends_of_heads head_enclose rfl ends
  have noWord₂ : s₂.current.lexeme ≠ .name "implements" :=
    last.ne_of_heads head_enclose (by simp) noInterfaces
  have noWord₁ : s₁.current.lexeme ≠ .name "implements" :=
    second.ne_of_heads head_directives (by simp) noWord₂
  have noAmpersand : s₁.current.lexeme ≠ .punctuator .ampersand :=
    second.ne_of_heads head_directives (by simp) (ends₂.ne rfl)
  have named := implementsInterfaces_finds bare ready interfacesOk first ⟨noWord₁, noAmpersand⟩
  have marked := directives_finds bare ready₁ marksOk second ends₂.noDirective
  have listed := braced_finds (@fieldDefinition_finds _ bare _) fieldDefinition_begins
    (fun _ opens => opens.apart .braceClose) rfl ready₂ fieldsOk last noBraces
  rw [bind_eq named, bind_eq marked, bind_eq listed]
  rfl

theorem listed_finds {make : List α → TypeBody} {item : Parser α} {spell : α → List Lexeme}
    {ok : α → Bool} (each : Finds options levels item spell ok fun _ => Ends)
    (begins : Begins spell ok OpensMember) {items : List α} (itemsOk : items.all ok = true)
    (moves : Moves s (directivesLexemes marks ++ bracedLexemes spell items) s')
    (ends : Ends s'.current.lexeme)
    (noBraces : items.isEmpty = true → s'.current.lexeme ≠ .punctuator .braceOpen) :
    (do
      let directives ← directives true levels
      return (directives, make (← braced item))) s = .ok (marks, make items) s' := by
  obtain ⟨s₁, first, last⟩ := moves.split
  have ready₁ := first.ready ready
  have ends₁ : Ends s₁.current.lexeme := last.ends_of_heads head_enclose rfl ends
  have marked := directives_finds bare ready marksOk first ends₁.noDirective
  have listed := braced_finds each begins (fun _ opens => opens.apart .braceClose) rfl ready₁
    itemsOk last noBraces
  rw [bind_eq marked, bind_eq listed]
  rfl

theorem typeBody_finds {full : Bool} {body : TypeBody}
    (bodyOk : body.conforms options levels = true)
    (moves : Moves s (body.interfacesLexemes full ++ directivesLexemes marks ++
      body.membersLexemes full) s')
    (follows : EndsType body s'.current.lexeme) :
    typeBody levels body.form s = .ok (marks, body) s' := by
  obtain ⟨ends, noInterfaces, noBraces⟩ := follows
  cases body with
  | scalar =>
      simp only [TypeBody.interfacesLexemes, TypeBody.interfaces, interfacesLexemes,
        TypeBody.membersLexemes, List.isEmpty_nil, if_true, List.nil_append,
        List.append_nil] at moves
      have marked := directives_finds bare ready marksOk moves ends.noDirective
      have found : (do return (← directives true levels, TypeBody.scalar)) s =
          .ok (marks, TypeBody.scalar) s' := by
        rw [bind_eq marked]
        rfl
      exact found
  | object interfaces fields | interface interfaces fields =>
      have parts := Bool.and_eq_true_iff.mp bodyOk
      exact fielded_finds bare ready marksOk parts.1 parts.2 moves ends noInterfaces noBraces
  | union members =>
      obtain ⟨s₁, first, last⟩ := Moves.split moves
      have headsMembers : ∀ next ∈ (unionMembersLexemes full members).head?,
          next = .punctuator .equals := by
        unfold unionMembersLexemes
        split <;> simp
      have noArguments : s₁.current.lexeme ≠ .punctuator .parenOpen :=
        Moves.ne_of_heads last headsMembers (by simp) (ends.ne rfl)
      have noDirective : s₁.current.lexeme ≠ .punctuator .atSign :=
        Moves.ne_of_heads last headsMembers (by simp) (ends.ne rfl)
      have marked := directives_finds bare ready marksOk first ⟨noArguments, noDirective⟩
      have listed := unionMembers_finds bare (first.ready ready) bodyOk last ends
      have found : (do
          let directives ← directives true levels
          return (directives, TypeBody.union (← unionMembers))) s =
            .ok (marks, TypeBody.union members) s' := by
        rw [bind_eq marked, bind_eq listed]
        rfl
      exact found
  | enum values =>
      exact listed_finds bare ready marksOk (@enumValueDefinition_finds _ bare _)
        enumValueDefinition_begins bodyOk moves ends noBraces
  | inputObject fields =>
      exact listed_finds bare ready marksOk (@inputValueDefinition_finds _ bare _)
        inputValueDefinition_begins bodyOk moves ends noBraces

end

section
variable {s s' : State} (ready : s.Ready options levels)
include ready

theorem typeDefinition_finds {full : Bool} {node : TypeDefinition}
    (isOk : node.conforms options levels = true) (moves : Moves s (node.lexemes full) s')
    (follows : EndsType node.body s'.current.lexeme) :
    typeDefinition levels node.body.form s = .ok node s' := by
  obtain ⟨text, key, marks, body, loc⟩ := node
  simp only [TypeDefinition.conforms, Bool.and_eq_true] at isOk
  obtain ⟨⟨⟨⟨textOk, keyOk⟩, marksOk⟩, bodyOk⟩, locOk⟩ := isOk
  obtain rfl := loc_none bare locOk
  simp only [TypeDefinition.lexemes, TypeBody.lexemes, List.append_assoc] at moves
  obtain ⟨s₁, first, onward⟩ := moves.split
  obtain ⟨s₂, word, behind⟩ := onward.uncons
  obtain ⟨s₃, second, last⟩ := behind.split
  rw [← List.append_assoc] at last
  have ready₁ := first.ready ready
  have ready₂ := word.ready ready₁
  have ready₃ := second.ready ready₂
  have described := description_finds bare ready textOk first ⟨_, word.head⟩
  have named := name_finds bare ready₂ keyOk second trivial
  have made := typeBody_finds bare ready₃ marksOk bodyOk last follows
  unfold typeDefinition
  rw [current_eq, bind_eq described, bind_eq (expectKeyword_eq word), bind_eq named, bind_eq made]
  dsimp only
  rw [bind_eq (span_none bare (last.ready ready₃) _)]
  rfl

theorem schemaExtension_finds {node : SchemaExtension} (isOk : node.conforms options levels = true)
    (moves : Moves s node.lexemes s') (ends : Ends s'.current.lexeme)
    (noBraces : node.operationTypes.isEmpty = true → s'.current.lexeme ≠ .punctuator .braceOpen) :
    schemaExtension levels s = .ok node s' := by
  obtain ⟨marks, types, loc⟩ := node
  simp only [SchemaExtension.conforms, Bool.and_eq_true, Bool.not_eq_true'] at isOk
  obtain ⟨⟨⟨marksOk, typesOk⟩, adds⟩, locOk⟩ := isOk
  obtain rfl := loc_none bare locOk
  obtain ⟨s₁, extend, onward⟩ := Moves.uncons moves
  obtain ⟨s₂, word, behind⟩ := onward.uncons
  obtain ⟨s₃, first, last⟩ := behind.split
  have ready₂ := word.ready (extend.ready ready)
  have ready₃ := first.ready ready₂
  have ends₃ : Ends s₃.current.lexeme := Moves.ends_of_heads last head_enclose rfl ends
  have marked := directives_finds bare ready₂ marksOk first ends₃.noDirective
  have listed := braced_finds (operationTypeDefinition_finds bare) operationTypeDefinition_begins
    (fun _ isName => isName.apart .braceClose) trivial ready₃ typesOk last noBraces
  unfold schemaExtension
  rw [current_eq, bind_eq (expectKeyword_eq extend), bind_eq (expectKeyword_eq word),
    bind_eq marked, bind_eq listed, if_neg (by simp [adds]),
    bind_eq (span_none bare (last.ready ready₃) _)]
  rfl

theorem typeExtension_finds {full : Bool} {node : TypeExtension}
    (isOk : node.conforms options levels = true) (moves : Moves s (node.lexemes full) s')
    (follows : EndsType node.body s'.current.lexeme) :
    typeExtension levels node.body.form s = .ok node s' := by
  obtain ⟨key, marks, body, loc⟩ := node
  simp only [TypeExtension.conforms, Bool.and_eq_true, Bool.not_eq_true'] at isOk
  obtain ⟨⟨⟨⟨keyOk, marksOk⟩, bodyOk⟩, adds⟩, locOk⟩ := isOk
  obtain rfl := loc_none bare locOk
  simp only [TypeExtension.lexemes, TypeBody.lexemes, List.append_assoc] at moves
  obtain ⟨s₁, extend, onward⟩ := moves.uncons
  obtain ⟨s₂, word, behind⟩ := onward.uncons
  obtain ⟨s₃, first, last⟩ := behind.split
  rw [← List.append_assoc] at last
  have ready₂ := word.ready (extend.ready ready)
  have ready₃ := first.ready ready₂
  have named := name_finds bare ready₂ keyOk first trivial
  have made := typeBody_finds bare ready₃ marksOk bodyOk last follows
  unfold typeExtension
  rw [current_eq, bind_eq (expectKeyword_eq extend), bind_eq (expectKeyword_eq word),
    bind_eq named, bind_eq made]
  dsimp only
  rw [if_neg (by simp [adds]), bind_eq (span_none bare (last.ready ready₃) _)]
  rfl

end

theorem directiveLocation_finds :
    Finds options levels directiveLocation Name.lexemes
      (fun place => place.conforms options && (DirectiveLocation.ofText? place.value).isSome)
      fun _ _ => True := by
  intro s s' node ready isOk moves _
  obtain ⟨nameOk, known⟩ := Bool.and_eq_true_iff.mp isOk
  have named := name_finds bare ready nameOk moves trivial
  unfold directiveLocation
  rw [current_eq, bind_eq named, if_pos known]
  rfl

theorem directiveDefinition_finds {full : Bool} :
    Finds options levels (directiveDefinition levels) (DirectiveDefinition.lexemes full)
      (·.conforms options levels) fun _ => Ends := by
  intro s s' node ready isOk moves follows
  obtain ⟨text, key, given, repeats, places, loc⟩ := node
  simp only [DirectiveDefinition.conforms, Bool.and_eq_true] at isOk
  obtain ⟨⟨⟨⟨⟨textOk, keyOk⟩, givenOk⟩, some'⟩, placesOk⟩, locOk⟩ := isOk
  obtain rfl := loc_none bare locOk
  obtain ⟨s₁, first, onward⟩ := Moves.split moves
  obtain ⟨s₂, word, signed⟩ := onward.uncons
  obtain ⟨s₃, sign, behind⟩ := signed.uncons
  obtain ⟨s₆, most, led⟩ := behind.split
  obtain ⟨s₅, heads, fourth⟩ := most.split
  obtain ⟨s₄, second, third⟩ := heads.split
  obtain ⟨s₇, on, last⟩ := led.uncons
  have ready₁ := first.ready ready
  have ready₃ := sign.ready (word.ready ready₁)
  have ready₄ := second.ready ready₃
  have ready₅ := third.ready ready₄
  have ready₇ := on.ready (fourth.ready ready₅)
  have noList : s₅.current.lexeme ≠ .punctuator .parenOpen := by
    cases repeats with
    | false =>
        obtain rfl := Moves.nil_eq fourth
        rw [on.head]
        simp
    | true =>
        rw [Moves.head fourth]
        simp
  have asked : acceptKeyword "repeatable" s₅ = .ok repeats s₆ := by
    cases repeats with
    | false =>
        obtain rfl := Moves.nil_eq fourth
        exact acceptKeyword_false (by rw [on.head]; simp)
    | true => exact acceptKeyword_true fourth
  have noPipe : s'.current.lexeme ≠ .punctuator .pipe := Ends.ne follows rfl
  have begins : Begins Name.lexemes
      (fun place => place.conforms options && (DirectiveLocation.ofText? place.value).isSome)
      fun next => next ≠ .eof ∧ next ≠ .punctuator .pipe := by
    intro item _
    exact ⟨_, _, rfl, by simp, by simp⟩
  have described := description_finds bare ready textOk first ⟨_, word.head⟩
  have named := name_finds bare ready₃ keyOk second trivial
  have listed := argumentDefinitions_finds bare ready₄ givenOk third noList
  have located := delimited_finds (directiveLocation_finds bare) begins ready₇
    (Bool.and_eq_true_iff.mpr ⟨some', placesOk⟩) last noPipe
  unfold directiveDefinition
  rw [current_eq, bind_eq described, bind_eq (expectKeyword_eq word),
    bind_eq ((fixes_mark .atSign).expect_eq sign), bind_eq named, bind_eq listed, bind_eq asked,
    bind_eq (expectKeyword_eq on), bind_eq located,
    bind_eq (span_none bare (last.ready ready₇) _)]
  rfl

end

end GraphQL.Parser
