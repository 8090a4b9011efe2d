import GraphQL.Printer.Node
import GraphQL.Proofs.Printer.TypeSystem

/-!
Documents print as their lexemes.
-/

namespace GraphQL

open Layout

theorem Definition.spells {definition : Definition}
    (proper : AllProper (definition.lexemes false)) :
    Spells definition.print (definition.lexemes false) := by
  cases definition with
  | operation inner => exact OperationDefinition.spells proper
  | fragment inner => exact FragmentDefinition.spells proper
  | schema inner => exact SchemaDefinition.spells proper
  | type inner => exact TypeDefinition.spells proper
  | directive inner => exact DirectiveDefinition.spells proper
  | schemaExtension inner => exact SchemaExtension.spells proper
  | typeExtension inner => exact TypeExtension.spells proper

theorem Document.spells {document : Document} (proper : AllProper document.lexemes) :
    Spells document.print document.lexemes := by
  rw [Document.lexemes, allProper_flatMap] at proper
  exact spells_join (by decide)
    (.map fun definition member => Definition.spells (proper definition member))

end GraphQL
