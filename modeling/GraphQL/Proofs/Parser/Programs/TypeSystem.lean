import GraphQL.Proofs.Parser.Programs.Executable

/-!
The programs of type system definitions, of their extensions and of documents.
-/

namespace GraphQL.Parser.Program

variable {levels : Nat} {α : Type}

def stringValue : Program levels .still stringValue :=
  looking fun _ => .bind .still (.step .advance) fun _ => located

def description : Program levels .still description :=
  looking fun _ => .branch _ (.bind .still stringValue fun _ => .step (.pure _)) (.step (.pure _))

def operationTypeDefinition : Program levels .onward operationTypeDefinition :=
  looking fun _ =>
    past operationType fun _ =>
    onto (mark .colon) fun _ =>
    onto namedType fun _ =>
    located

def described {pace : Pace} {next : Token → Option StringValue → Parser α}
    (program : (start : Token) → (text : Option StringValue) →
      Program levels pace (next start text)) :
    Program levels pace (do
      let start ← current
      let text ← Parser.description
      next start text) :=
  looking fun start => .bind .still description (program start)

def schemaDefinition : Program levels .onward (schemaDefinition levels) :=
  described fun _ _ =>
    past (.step (.expectKeyword _)) fun _ =>
    onto (directives true) fun _ =>
    onto (many .operationTypeDefinition (opening operationTypeDefinition) .braceOpen _) fun _ =>
    located

def inputValueDefinition : Program levels .onward (inputValueDefinition levels) :=
  described fun _ _ =>
    past name fun _ =>
    onto (mark .colon) fun _ =>
    onto (typeRef levels) fun _ =>
    onto defaultValue fun _ =>
    onto (directives true) fun _ =>
    located

def argumentDefinitions : Program levels .still (argumentDefinitions levels) :=
  optionalMany .inputValueDefinition (opening inputValueDefinition) .parenOpen _

def fieldDefinition : Program levels .onward (fieldDefinition levels) :=
  described fun _ _ =>
    past name fun _ =>
    onto argumentDefinitions fun _ =>
    onto (mark .colon) fun _ =>
    onto (typeRef levels) fun _ =>
    onto (directives true) fun _ =>
    located

def enumValueName : Program levels .onward enumValueName :=
  looking fun _ => .branch _ (.step (.fail _ _)) name

def enumValueDefinition : Program levels .onward (enumValueDefinition levels) :=
  described fun _ _ => past enumValueName fun _ => onto (directives true) fun _ => located

def implementsInterfaces : Program levels .still implementsInterfaces :=
  .offer (.acceptKeyword _) (delimited .namedType (opening namedType) .ampersand) (.step (.pure _))

def unionMembers : Program levels .still unionMembers :=
  .offer (.mark .equals) (delimited .namedType (opening namedType) .pipe) (.step (.pure _))

def braced {item : Parser α} (isItem : IsItem levels item) (program : Program levels .onward item) :
    Program levels .still (braced item) :=
  optionalMany isItem (opening program) .braceOpen _

def typeBody : (form : TypeForm) → Program levels .free (typeBody levels form)
  | .scalar => onto (directives true) fun _ => .step (.pure _)
  | .object | .interface =>
      onto implementsInterfaces fun _ =>
      onto (directives true) fun _ =>
      onto (braced .fieldDefinition fieldDefinition) fun _ =>
      .step (.pure _)
  | .union => onto (directives true) fun _ => onto unionMembers fun _ => .step (.pure _)
  | .enum => onto (directives true) fun _ =>
      onto (braced .enumValueDefinition enumValueDefinition) fun _ => .step (.pure _)
  | .inputObject => onto (directives true) fun _ =>
      onto (braced .inputValueDefinition inputValueDefinition) fun _ => .step (.pure _)

def typeDefinition (form : TypeForm) : Program levels .onward (typeDefinition levels form) :=
  described fun _ _ =>
    past (.step (.expectKeyword _)) fun _ =>
    onto name fun _ =>
    onto (typeBody form) fun _ =>
    located

def directiveLocation : Program levels .onward directiveLocation :=
  looking fun _ => past name fun _ => .branch _ (.step (.pure _)) (.step (.fail _ _))

def directiveDefinition : Program levels .onward (directiveDefinition levels) :=
  described fun _ _ =>
    past (.step (.expectKeyword _)) fun _ =>
    onto (mark .atSign) fun _ =>
    onto name fun _ =>
    onto argumentDefinitions fun _ =>
    onto (asked (.acceptKeyword _)) fun _ =>
    onto (.step (.expectKeyword _)) fun _ =>
    onto (delimited .directiveLocation (opening directiveLocation) .pipe) fun _ =>
    located

def schemaExtension : Program levels .onward (schemaExtension levels) :=
  looking fun _ =>
    past (.step (.expectKeyword _)) fun _ =>
    onto (.step (.expectKeyword _)) fun _ =>
    onto (directives true) fun _ =>
    onto (braced .operationTypeDefinition operationTypeDefinition) fun _ =>
    .branch _ (.step .unexpected) located

def typeExtension (form : TypeForm) : Program levels .onward (typeExtension levels form) :=
  looking fun _ =>
    past (.step (.expectKeyword _)) fun _ =>
    onto (.step (.expectKeyword _)) fun _ =>
    onto name fun _ =>
    onto (typeBody form) fun _ =>
    .branch _ (.step .unexpected) located

end GraphQL.Parser.Program
