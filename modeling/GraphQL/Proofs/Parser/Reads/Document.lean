import GraphQL.Proofs.Parser.Reads.TypeSystem

/-!
What definitions and documents read. A definition that lacks its braces has met none.
-/

namespace GraphQL

/-- What a definition can have read in front of `next`, under `options`. -/
structure Definition.Fits (options : Options) (levels : Nat) (definition : Definition)
    (used : List Lexeme) (next : Lexeme) : Prop where
  spelled : ∃ full, used = definition.lexemes full
  conforms : definition.conforms options levels = true
  ends : definition.lacksBraces = true → next ≠ .punctuator .braceOpen

namespace Parser

def ReadsDefinition (options : Options) (levels : Nat) (parser : Parser Definition) : Prop :=
  ∀ {s s' : State} {found : Definition}, s.options = options → parser s = .ok found s' →
    ∃ used, Moves s used s' ∧ found.Fits options levels used s'.current.lexeme

section
variable {options : Options} {levels : Nat}

theorem ReadsDefinition.fail {token : Token} {complaint : Complaint} :
    ReadsDefinition options levels (fail token complaint) := by
  intro s s' found _ parsed
  exact absurd parsed fail_ne_ok

theorem ReadsDefinition.current {next : Token → Parser Definition}
    (each : ∀ token, ReadsDefinition options levels (next token)) :
    ReadsDefinition options levels (current >>= next) := by
  intro s s' found here parsed
  rw [current_eq] at parsed
  exact each _ here parsed

theorem ReadsDefinition.lookahead {next : Token → Parser Definition}
    (each : ∀ token, ReadsDefinition options levels (next token)) :
    ReadsDefinition options levels (lookahead >>= next) := by
  intro s s' found here parsed
  obtain ⟨token, s₁, ahead, parsed⟩ := bind_ok parsed
  obtain rfl := lookahead_ok ahead
  exact each token here parsed

theorem ReadsDefinition.operation :
    ReadsDefinition options levels (operation levels >>= fun inner => pure (.operation inner)) := by
  intro s s' found here parsed
  obtain ⟨inner, s₁, read, parsed⟩ := bind_ok parsed
  cases parsed
  obtain ⟨full, moves, isOk⟩ := operation_reads here read
  exact ⟨_, moves, ⟨full, rfl⟩, isOk, by simp [Definition.lacksBraces]⟩

theorem extension_reads : ReadsDefinition options levels (extension levels) := by
  apply ReadsDefinition.lookahead
  intro keyword
  split
  · intro s s' found here parsed
    obtain ⟨inner, s₁, read, parsed⟩ := bind_ok parsed
    cases parsed
    obtain ⟨moves, isOk, ends⟩ := schemaExtension_reads here read
    exact ⟨_, moves, ⟨false, rfl⟩, isOk, ends⟩
  · split
    · intro s s' found here parsed
      obtain ⟨inner, s₁, read, parsed⟩ := bind_ok parsed
      cases parsed
      obtain ⟨full, moves, isOk, ends⟩ := typeExtension_reads here _ read
      exact ⟨_, moves, ⟨full, rfl⟩, isOk, ends⟩
    · exact ReadsDefinition.fail
  · exact ReadsDefinition.fail

theorem map_ok {make : α → β} {part : Parser α} {s s' : State} {result : β}
    (parsed : (make <$> part) s = .ok result s') :
    ∃ inner, part s = .ok inner s' ∧ result = make inner := by
  simp only [Functor.map, EStateM.map] at parsed
  split at parsed
  · cases parsed
    exact ⟨_, ‹_›, rfl⟩
  · cases parsed

theorem typeSystemDefinition_reads {keyword : String} {parser : Parser Definition}
    (known : typeSystemDefinition? levels keyword = some parser) :
    ReadsDefinition options levels parser := by
  intro s s' found here parsed
  unfold typeSystemDefinition? at known
  split at known
  · cases known
    obtain ⟨inner, read, rfl⟩ := map_ok parsed
    obtain ⟨moves, isOk⟩ := schemaDefinition_reads here read
    exact ⟨_, moves, ⟨false, rfl⟩, isOk, by simp [Definition.lacksBraces]⟩
  · cases known
    obtain ⟨inner, read, rfl⟩ := map_ok parsed
    obtain ⟨full, moves, isOk⟩ := directiveDefinition_reads here read
    exact ⟨_, moves, ⟨full, rfl⟩, isOk, by simp [Definition.lacksBraces]⟩
  · obtain ⟨form, _, rfl⟩ := Option.map_eq_some_iff.mp known
    obtain ⟨inner, read, rfl⟩ := map_ok parsed
    obtain ⟨full, moves, isOk, ends⟩ := typeDefinition_reads here form read
    exact ⟨_, moves, ⟨full, rfl⟩, isOk, ends⟩

theorem definitionAt_reads (described : Bool) (start keyword : Token) :
    ReadsDefinition options levels (definitionAt levels described start keyword) := by
  unfold definitionAt
  split
  -- Words of the type system are tried first, then a description is refused.
  · split
    · rename_i known
      exact typeSystemDefinition_reads known
    split
    · exact ReadsDefinition.fail
    split
    · exact ReadsDefinition.operation
    · exact ReadsDefinition.operation
    · exact ReadsDefinition.operation
    · intro s s' found here parsed
      obtain ⟨inner, s₁, read, parsed⟩ := bind_ok parsed
      cases parsed
      obtain ⟨moves, isOk⟩ := fragment_reads here read
      exact ⟨_, moves, ⟨false, rfl⟩, isOk, by simp [Definition.lacksBraces]⟩
    · exact extension_reads
    · exact ReadsDefinition.fail
  · exact ReadsDefinition.fail

theorem definition_reads : ReadsDefinition options levels (definition levels) := by
  rw [definition_eq]
  apply ReadsDefinition.current
  intro start
  dsimp only
  split
  · exact ReadsDefinition.operation
  split
  · exact ReadsDefinition.lookahead fun keyword => definitionAt_reads _ start keyword
  · exact definitionAt_reads _ start start

/-- What a document has read: its definitions between the ends of the text. -/
theorem document_reads {s s' : State} {found : Document} (here : s.options = options)
    (parsed : document levels s = .ok found s') :
    ∃ used, Moves s (.sof :: used) s' ∧
      Listed (Definition.Fits options levels) .eof found.definitions used ∧
      options.allowsLoc found.loc = true := by
  unfold document at parsed
  rw [current_eq] at parsed
  obtain ⟨definitions, s₁, listed, parsed⟩ := bind_ok parsed
  obtain ⟨loc, rfl, rfl, allowed⟩ := located_allowed parsed
  unfold many at listed
  obtain ⟨_, s₂, opened, listed⟩ := bind_ok listed
  rw [rounds_eq] at listed
  have opens := fixes_sof.expect_ok opened
  obtain ⟨used, moves, fits⟩ := itemsUntil_listed (Definition.Fits options levels) fixes_eof
    definition_reads (opens.options.trans here) listed
  have whole := opens.append moves
  exact ⟨used, whole, fits, allowsLoc_after whole here allowed⟩

end

end Parser

end GraphQL
