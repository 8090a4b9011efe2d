import GraphQL.Parser.Production
import GraphQL.Proofs.Parser.Programs.TypeSystem

/-!
The programs of definitions of every sort, of documents, and of what a parser can be asked for.
-/

namespace GraphQL.Parser

/-! Keywords are told one after the other. -/

def extensionAt (levels : Nat) (keyword : Token) : Lexeme → Parser Definition
  | .name text =>
      if text = "schema" then Definition.schemaExtension <$> schemaExtension levels
      else
        match TypeForm.ofKeyword? text with
        | some form => Definition.typeExtension <$> typeExtension levels form
        | none => fail keyword (.unexpected keyword.lexeme)
  | _ => fail keyword (.unexpected keyword.lexeme)

theorem extension_eq (levels : Nat) :
    extension levels = (do
      let keyword ← lookahead
      extensionAt levels keyword keyword.lexeme) := by
  unfold extension
  congr
  funext keyword
  cases ahead : keyword.lexeme with
  | name text =>
      by_cases isSchema : text = "schema"
      · subst isSchema
        rfl
      · cases told : TypeForm.ofKeyword? text <;>
          simp only [extensionAt, ahead, told, if_neg isSchema, map_eq_pure_bind]
  | _ => simp only [extensionAt, ahead]

def executableAt (levels : Nat) (keyword : Token) (text : String) : Parser Definition :=
  if text = "query" ∨ text = "mutation" ∨ text = "subscription" then
    Definition.operation <$> operation levels
  else if text = "fragment" then Definition.fragment <$> fragment levels
  else if text = "extend" then extension levels
  else fail keyword (.unexpected keyword.lexeme)

def namedDefinition (levels : Nat) (described : Bool) (start keyword : Token) :
    Lexeme → Parser Definition
  | .name text =>
      (typeSystemDefinition? levels text).getD <|
        if described then fail start .misplacedDescription else executableAt levels keyword text
  | _ => fail keyword (.unexpected keyword.lexeme)

theorem definitionAt_eq (levels : Nat) (described : Bool) (start keyword : Token) :
    definitionAt levels described start keyword =
      namedDefinition levels described start keyword keyword.lexeme := by
  unfold definitionAt
  cases ahead : keyword.lexeme with
  | name text =>
      simp only [namedDefinition, executableAt, ahead, map_eq_pure_bind]
      cases typeSystemDefinition? levels text with
      | some definition => rfl
      | none =>
          simp only
          split
          · rfl
          · split <;> simp_all
  | _ => simp only [namedDefinition, ahead]

theorem typeSystemDefinition?_eq {levels : Nat} {text : String} (notSchema : text ≠ "schema")
    (notDirective : text ≠ "directive") :
    typeSystemDefinition? levels text = (TypeForm.ofKeyword? text).map fun form =>
      Definition.type <$> typeDefinition levels form := by
  unfold typeSystemDefinition?
  split
  · exact absurd rfl notSchema
  · exact absurd rfl notDirective
  · rfl

namespace Program

variable {levels : Nat} {α : Type}

def extensionAt (keyword : Token) : (lexeme : Lexeme) →
    Program levels .onward (extensionAt levels keyword lexeme)
  | .name text => .branch _ (.map _ schemaExtension) <|
      match TypeForm.ofKeyword? text with
      | some form => .map _ (typeExtension form)
      | none => .step (.fail _ _)
  | .sof | .eof | .punctuator _ | .int _ | .float _ | .string _ | .blockString _ | .comment _ =>
      .step (.fail _ _)

def extension : Program levels .onward (extension levels) :=
  .same (extension_eq levels) <|
    .bind .still (.step .lookahead) fun keyword => extensionAt keyword keyword.lexeme

def keyed {text : String} {parser : Parser Definition}
    (known : typeSystemDefinition? levels text = some parser) : Program levels .onward parser :=
  if isSchema : text = "schema" then
    .same (by subst isSchema; exact (Option.some.inj known).symm) (.map _ schemaDefinition)
  else if isDirective : text = "directive" then
    .same (by subst isDirective; exact (Option.some.inj known).symm) (.map _ directiveDefinition)
  else
    have isForm := typeSystemDefinition?_eq isSchema isDirective ▸ known
    match found : TypeForm.ofKeyword? text with
    | some form => .same (by rw [found] at isForm; exact (Option.some.inj isForm).symm)
        (.map _ (typeDefinition form))
    | none => absurd (found ▸ isForm) (Option.some_ne_none _).symm

def given {pace : Pace} {otherwise : Parser α} : (found : Option (Parser α)) →
    ((parser : Parser α) → found = some parser → Program levels pace parser) →
    Program levels pace otherwise → Program levels pace (found.getD otherwise)
  | some parser, each, _ => each parser rfl
  | none, _, other => other

def executableAt (keyword : Token) (text : String) :
    Program levels .opening (executableAt levels keyword text) :=
  .branch _ (.map _ operation) <| .branch _ (opening (.map _ fragment)) <|
    .branch _ (opening extension) (.step (.fail _ _))

def namedDefinition (described : Bool) (start keyword : Token) : (lexeme : Lexeme) →
    Program levels .opening (namedDefinition levels described start keyword lexeme)
  | .name text =>
      given _ (fun _ known => opening (keyed known))
        (.branch _ (.step (.fail _ _)) (executableAt keyword text))
  | .sof | .eof | .punctuator _ | .int _ | .float _ | .string _ | .blockString _ | .comment _ =>
      .step (.fail _ _)

def definition : Program levels .opening (definition levels) :=
  .same (definition_eq levels) <| looking fun start =>
    let told keyword := .same (definitionAt_eq ..) (namedDefinition _ start keyword keyword.lexeme)
    .branch _ (.map _ operation) <|
      .branch _ (.bind .still (.step .lookahead) told) (.bind .still (.step (.pure _)) told)

def document : Program levels .free (document levels) :=
  looking fun _ =>
    onto (onto (.step (.expectMark .sof)) fun _ => itemsUntil .definition definition .eof) fun _ =>
      located

def whole {pace : Pace} {item : Parser α} (program : Program levels pace item) :
    Program levels .free (whole item) :=
  onto (.step (.expectMark .sof)) fun _ => onto program fun _ =>
    onto (.step (.expectMark .eof)) fun _ => .step (.pure _)

end Program

/-- The program of what a parser is asked for. -/
def Production.program (levels : Nat) : (production : Production) →
    Program levels .free (production.parser levels)
  | document => .map _ Program.document
  | definition => .within .free (.map _ Program.definition)
  | operation => .within .free (.map _ Program.operation)
  | fragment => .within .free (.map _ Program.fragment)
  | selectionSet => .within .free (.map _ (Program.selectionSet levels))
  | name => .within .free (.map _ Program.name)
  | value isConst => .within .free (.map _ (Program.value isConst levels))
  | typeRef => .within .free (.map _ (Program.typeRef levels))

end GraphQL.Parser
