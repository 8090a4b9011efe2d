import GraphQL.Proofs.Parser.Reads.Document
import GraphQL.Proofs.Parser.Spans.TypeSystem

/-!
Where definitions are read, and the way from the beginning of a text to its end.
-/

namespace GraphQL.Parser

section
variable {levels : Nat}

theorem fail_spans {token : Token} {complaint : Complaint} {node : α → Node} :
    ReadsNode (fail token complaint) node := by
  intro s s' found parsed
  exact absurd parsed fail_ne_ok

theorem lookahead_spans {next : Token → Parser α} {node : α → Node}
    (each : ∀ token, ReadsNode (next token) node) : ReadsNode (lookahead >>= next) node := by
  intro s s' found parsed
  obtain ⟨token, s₁, ahead, parsed⟩ := bind_ok parsed
  obtain rfl := lookahead_ok ahead
  exact each token parsed

theorem wrapped_spans {part : Parser α} {wrap : α → Definition}
    (each : ReadsNode part fun found => .definition (wrap found)) :
    ReadsNode (part >>= fun inner => pure (wrap inner)) .definition := by
  intro s s' found parsed
  obtain ⟨inner, s₁, read, parsed⟩ := bind_ok parsed
  cases parsed
  exact each read

theorem extension_spans : ReadsNode (extension levels) .definition := by
  apply lookahead_spans
  intro keyword
  split
  · exact wrapped_spans schemaExtension_spans
  · split
    · exact wrapped_spans (typeExtension_spans _)
    · exact fail_spans
  · exact fail_spans

theorem typeSystemDefinition_spans {keyword : String} {parser : Parser Definition}
    (known : typeSystemDefinition? levels keyword = some parser) :
    ReadsNode parser .definition := by
  intro s s' found parsed
  unfold typeSystemDefinition? at known
  split at known
  · cases known
    obtain ⟨inner, read, rfl⟩ := map_ok parsed
    exact schemaDefinition_spans read
  · cases known
    obtain ⟨inner, read, rfl⟩ := map_ok parsed
    exact directiveDefinition_spans read
  · obtain ⟨form, _, rfl⟩ := Option.map_eq_some_iff.mp known
    obtain ⟨inner, read, rfl⟩ := map_ok parsed
    exact typeDefinition_spans form read

theorem definitionAt_spans (described : Bool) (start keyword : Token) :
    ReadsNode (definitionAt levels described start keyword) .definition := by
  unfold definitionAt
  split
  · split
    · rename_i known
      exact typeSystemDefinition_spans known
    split
    · exact fail_spans
    split
    · exact wrapped_spans operation_spans
    · exact wrapped_spans operation_spans
    · exact wrapped_spans operation_spans
    · exact wrapped_spans fragment_spans
    · exact extension_spans
    · exact fail_spans
  · exact fail_spans

theorem definition_spans : ReadsNode (definition levels) .definition := by
  rw [definition_eq]
  intro s s' found parsed
  rw [current_eq] at parsed
  split at parsed
  · exact wrapped_spans operation_spans parsed
  split at parsed
  · exact lookahead_spans (fun keyword => definitionAt_spans _ _ keyword) parsed
  · exact definitionAt_spans _ _ _ parsed

theorem document_row {s s' : State} {found : Document}
    (parsed : document levels s = .ok found s') :
    ∃ s₁ s₂, Moves s [.sof] s₁ ∧ Row s₁ (found.definitions.map .definition) s₂ ∧
      Moves s₂ [.eof] s' ∧ found.loc = spanned s s' := by
  unfold document at parsed
  rw [current_eq] at parsed
  obtain ⟨definitions, s₁, listed, parsed⟩ := bind_ok parsed
  obtain ⟨rfl, rfl⟩ := located_ok parsed
  unfold many at listed
  obtain ⟨_, s₂, opened, listed⟩ := bind_ok listed
  rw [rounds_eq] at listed
  obtain ⟨s₃, row, closes⟩ := itemsUntil_row definition_spans fixes_eof listed
  exact ⟨s₂, s₃, fixes_sof.expect_ok opened, row, closes, rfl⟩

theorem whole_spans {item : Parser α} {node : α → Node} (each : ReadsNode item node)
    {s s' : State} {found : α} (parsed : whole item s = .ok found s') :
    ∃ s₁ s₂, Moves s [.sof] s₁ ∧ Spans s₁ (node found) s₂ ∧ Moves s₂ [.eof] s' := by
  obtain ⟨_, s₁, opened, parsed⟩ := bind_ok parsed
  obtain ⟨inner, s₂, read, parsed⟩ := bind_ok parsed
  obtain ⟨_, s₃, closed, parsed⟩ := bind_ok parsed
  cases parsed
  exact ⟨s₁, s₂, fixes_sof.expect_ok opened, each read, fixes_eof.expect_ok closed⟩

end

end GraphQL.Parser
