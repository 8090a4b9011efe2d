import GraphQL.Proofs.Excerpt
import GraphQL.Proofs.Levels
import GraphQL.Proofs.Parser.Located

/-!
Parts of a document, parsed from their own text. A definition, a selection set, a value and a
type can each be all of a text, and the text from which one of them was read is such a text: it
has the lexemes that spell the node, and no limit is harder to keep there than in the document.
-/

namespace GraphQL

open GraphQL.Parser

/-- A source is parsed as this node by the entry for its sort. A selection set alone is a query
without a name. -/
inductive Node.ParsedFrom (source : Source) (options : Options) : Node → Prop
  | definition {found : Definition} {loc : Option Location}
      (parsed : Document.parse source options = .ok ⟨[found], loc⟩) :
      ParsedFrom source options (.definition found)
  | selectionSet {found : SelectionSet} {inner outer : Option Location}
      (parsed : Document.parse source options =
        .ok ⟨[.operation ⟨.query, none, [], [], found, inner⟩], outer⟩) :
      ParsedFrom source options (.selectionSet found)
  | value {found : Value} (parsed : Value.parse source options = .ok found) :
      ParsedFrom source options (.value found)
  | type {found : TypeRef} (parsed : TypeRef.parse source options = .ok found) :
      ParsedFrom source options (.type found)

def Node.standsAlone : Node → Bool
  | .definition _ | .selectionSet _ | .value _ | .type _ => true
  | _ => false

def Node.Reparsed (source : Source) (options : Options) (node : Node) : Prop :=
  ∃ found : Node, found.ParsedFrom source options ∧
    found.relocate unlocated = node.relocate unlocated

/-- The query that a selection set alone stands for. -/
def SelectionSet.query (set : SelectionSet) : Definition :=
  .operation ⟨.query, none, [], [], set, none⟩

theorem SelectionSet.query_conforms {options : Options} {levels : Nat} {set : SelectionSet}
    (conforms : set.conforms options levels = true) :
    set.query.conforms options levels = true := by
  simp [query, Definition.conforms, OperationDefinition.conforms, directivesConform, conforms]

theorem SelectionSet.query_of_relocate {set : SelectionSet} {found : Definition}
    (same : found.relocate unlocated = set.query.relocate unlocated) :
    ∃ inner loc, found = .operation ⟨.query, none, [], [], inner, loc⟩ ∧
      inner.relocate unlocated = set.relocate unlocated := by
  cases found with
  | operation operation =>
      obtain ⟨type, name, declared, directives, inner, loc⟩ := operation
      simp only [query, Definition.relocate, OperationDefinition.relocate,
        Definition.operation.injEq, OperationDefinition.mk.injEq, Option.map_none,
        Option.map_eq_none_iff, List.map_nil, List.map_eq_nil_iff] at same
      obtain ⟨rfl, rfl, rfl, rfl, relocated, _⟩ := same
      exact ⟨inner, loc, rfl, relocated⟩
  | _ => cases same

section
variable {source : Source} {options : Options} {all : List Lexeme} {node : Node}

theorem Definition.parsed_alone {definition : Definition}
    (located : options.noLocation = false) (lexed : Lexed source.chars all)
    (spelled : ∃ full, (all.filter fun found => !found.isComment) = definition.lexemes full)
    (few : ∀ limit, options.maxTokens = some limit →
      (all.filter fun found => !found.isComment).length ≤ limit)
    (conforms : definition.conforms options options.maxNestingDepth = true) :
    ∃ found loc, Document.parse source options = .ok ⟨[found], loc⟩ ∧
      found.relocate unlocated = definition.relocate unlocated := by
  have fits : definition.Fits options options.maxNestingDepth
      (all.filter fun found => !found.isComment) .eof := ⟨spelled, conforms, fun _ => by simp⟩
  obtain ⟨⟨definitions, loc⟩, parsed, same⟩ :=
    document_parsed ⟨rfl, rfl⟩ lexed (Nat.le_refl _) (.last fits) rfl few
  obtain ⟨found, rfl, relocated⟩ := List.map_eq_singleton_iff.mp (same located)
  exact ⟨found, loc, parsed, relocated⟩

/-- What excerpts a node and conforms is parsed again. -/
theorem Node.Excerpts.reparsed (excerpts : node.Excerpts options source.chars all)
    (located : options.noLocation = false)
    (conforms : node.ConformsWithin options options.maxNestingDepth)
    (alone : node.standsAlone = true) : node.Reparsed source options := by
  obtain ⟨lexed, spelled, few⟩ := excerpts
  cases node with
  | definition inner =>
      obtain ⟨found, loc, parsed, same⟩ :=
        Definition.parsed_alone located lexed spelled few conforms
      exact ⟨.definition found, .definition parsed, congrArg Node.definition same⟩
  | selectionSet inner =>
      have short : (all.filter fun found => !found.isComment) = inner.query.lexemes false := spelled
      obtain ⟨found, loc, parsed, same⟩ := Definition.parsed_alone located lexed
        ⟨false, short⟩ few (SelectionSet.query_conforms conforms)
      obtain ⟨set, outer, rfl, relocated⟩ := SelectionSet.query_of_relocate same
      exact ⟨.selectionSet set, .selectionSet parsed, congrArg Node.selectionSet relocated⟩
  | value inner =>
      have kept : inner.lexemes = all.filter fun found => !found.isComment := spelled.symm
      obtain ⟨found, parsed, same⟩ :=
        value_parsed ⟨rfl, rfl⟩ lexed (Nat.le_refl _) conforms kept (kept ▸ few)
      exact ⟨.value found, .value parsed, congrArg Node.value (same located)⟩
  | type inner =>
      have kept : inner.lexemes = all.filter fun found => !found.isComment := spelled.symm
      obtain ⟨found, parsed, same⟩ :=
        typeRef_parsed ⟨rfl, rfl⟩ lexed (Nat.le_refl _) conforms kept (kept ▸ few)
      exact ⟨.type found, .type parsed, congrArg Node.type (same located)⟩
  | _ => cases alone

/-- The location of a definition, selection set, value or type in a document has the text of the
node, and that text alone is parsed as the same node. -/
theorem Document.parse_excerpts {document : Document}
    (parsed : Document.parse source options = .ok document) (located : options.noLocation = false)
    (levels : 1 ≤ options.maxNestingDepth) (inside : node.Inside (.document document))
    (alone : node.standsAlone = true) :
    ∃ loc text, node.loc = some loc ∧ loc.text? = some text ∧
      ∀ name, node.Reparsed ⟨text, name⟩ options := by
  have conforms := inside.conforms_within (Document.conforms_of_parse parsed).1 levels
  cases inside with
  | self => cases alone
  | child member inside =>
      obtain ⟨loc, text, all, isLoc, isText, excerpts⟩ :=
        Document.excerpts located parsed member inside
      exact ⟨loc, text, isLoc, isText, fun name => excerpts.reparsed located conforms alone⟩

end

/-- A list in an argument is parsed again from its own text, under options that let no longer and
no deeper document through. -/
theorem Document.parse_excerpts_argument :
    let source := Source.ofBody "\x7ba(b: [1,2])\x7d"
    let options : Options := ⟨false, false, some 11, 3⟩
    let span (start stop : Nat) : Option Location :=
      some ⟨start, stop, ⟨1, start + 1⟩, ⟨1, stop + 1⟩, some source⟩
    let list : Value := .list [.int "1" (span 7 8), .int "2" (span 9 10)] (span 6 11)
    let argument : Argument := ⟨⟨"b", span 3 4⟩, list, span 3 11⟩
    let field : Field := ⟨none, ⟨"a", span 1 2⟩, [argument], [], none, span 1 12⟩
    let set : SelectionSet := ⟨[.field field], span 0 13⟩
    let document : Document :=
      ⟨[.operation ⟨.query, none, [], [], set, span 0 13⟩], span 0 13⟩
    Document.parse source options = .ok document ∧ options.noLocation = false ∧
      1 ≤ options.maxNestingDepth ∧ (Node.value list).Inside (.document document) ∧
      (Node.value list).standsAlone = true ∧
      ∃ loc text, (Node.value list).loc = some loc ∧ loc.text? = some text ∧
        ∀ name, (Node.value list).Reparsed ⟨text, name⟩ options := by
  intro source options span list argument field set document
  have parsed : Document.parse source options = .ok document :=
    ok_of_toOption (by decide +kernel)
  have inside : (Node.value list).Inside (.document document) := by
    have inArgument : (Node.value list).Inside (.argument argument) :=
      .child (by simp [Node.children, argument]) .self
    have inField : (Node.value list).Inside (.selection (.field field)) :=
      .child (by simp [Node.children, Selection.children, field]) inArgument
    have inSet : (Node.value list).Inside (.selectionSet set) := .child List.mem_cons_self inField
    exact .child List.mem_cons_self (.child (by simp [Node.children, Definition.children]) inSet)
  exact ⟨parsed, rfl, by decide, inside, rfl,
    Document.parse_excerpts parsed rfl (by decide) inside rfl⟩

end GraphQL
