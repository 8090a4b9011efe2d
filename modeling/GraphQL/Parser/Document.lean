import GraphQL.Parser.TypeSystem

/-!
Definitions of every sort, documents, and the ways into the parser from a text.
-/

namespace GraphQL

namespace Parser

/-- A definition of the type system that a keyword begins, if it begins one. -/
def typeSystemDefinition? (levels : Nat) (keyword : String) : Option (Parser Definition) :=
  match keyword with
  | "schema" => some (Definition.schema <$> schemaDefinition levels)
  | "directive" => some (Definition.directive <$> directiveDefinition levels)
  | _ => (TypeForm.ofKeyword? keyword).map fun form => Definition.type <$> typeDefinition levels form

/-- Any definition. The word behind a description, or else the current one, tells which;
only the type system has descriptions. -/
def definition (levels : Nat) : Parser Definition := do
  let start ← current
  if start.kind = .punctuator .braceOpen then return .operation (← operation levels)
  else
    let described := isDescription start
    let keyword ← if described then lookahead else pure start
    match keyword.lexeme with
    | .name text =>
        match typeSystemDefinition? levels text with
        | some definition => definition
        | none =>
            if described then fail start .misplacedDescription
            else
              match text with
              | "query" | "mutation" | "subscription" => return .operation (← operation levels)
              | "fragment" => return .fragment (← fragment levels)
              | "extend" => extension levels
              | _ => fail keyword (.unexpected keyword.lexeme)
    | _ => fail keyword (.unexpected keyword.lexeme)

def document (levels : Nat) : Parser Document := do
  let start ← current
  let definitions ← many .sof (definition levels) .eof
  return ⟨definitions, ← span start⟩

end Parser

def Document.parse (source : Source) (options : Options) : Except SyntaxError Document :=
  (Parser.document options.maxNestingDepth).run source options

def Value.parse (source : Source) (options : Options) : Except SyntaxError Value :=
  (Parser.whole (Parser.value false options.maxNestingDepth)).run source options

def Value.parseConst (source : Source) (options : Options) : Except SyntaxError Value :=
  (Parser.whole (Parser.value true options.maxNestingDepth)).run source options

def TypeRef.parse (source : Source) (options : Options) : Except SyntaxError TypeRef :=
  (Parser.whole (Parser.typeRef options.maxNestingDepth)).run source options

end GraphQL
