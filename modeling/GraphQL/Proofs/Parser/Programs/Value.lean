import GraphQL.Proofs.Parser.Program

/-!
The programs of names, values, directives and type references.
-/

namespace GraphQL.Parser

def leaf (kind : TokenKind) (make : Option Location → α) : Parser α := do
  let start ← current
  expect kind
  return make (← span start)

theorem leaf_eq {s : State} {kind : TokenKind} (here : s.current.kind = kind)
    (make : Option Location → α) :
    leaf kind make s = (do advance; return make (← span s.current) : Parser α) s := by
  unfold leaf
  rw [current_eq]
  show EStateM.bind _ _ s = EStateM.bind _ _ s
  unfold EStateM.bind
  rw [expect_eq here]

def valueAt (isConst : Bool) (inner : Parser Value) (start : Token) : Lexeme → Parser Value
  | .punctuator .bracketOpen => do
      let items ← any (.punctuator .bracketOpen) inner (.punctuator .bracketClose)
      return .list items (← span start)
  | .punctuator .braceOpen => do
      let fields ← any (.punctuator .braceOpen) (objectField inner) (.punctuator .braceClose)
      return .object fields (← span start)
  | .int text => leaf .int (.int text)
  | .float text => leaf .float (.float text)
  | .string text => leaf .string fun loc => .string ⟨text, false, loc⟩
  | .blockString text => leaf .blockString fun loc => .string ⟨text, true, loc⟩
  | .name text => leaf .name (namedValue text)
  | .punctuator .dollar => if isConst then refuseVariable else return .var (← variableRef)
  | _ => unexpected

theorem valueBody_eq (isConst : Bool) (inner : Parser Value) :
    valueBody isConst inner = (do
      let start ← current
      valueAt isConst inner start start.lexeme) := by
  funext s
  unfold valueBody
  rw [current_eq, current_eq]
  unfold valueAt
  cases ahead : s.current.lexeme with
  | int text | float text | name text =>
      exact (leaf_eq (by rw [Token.kind, ahead]; rfl) _).symm
  | string text | blockString text =>
      dsimp only
      rw [leaf_eq (by rw [Token.kind, ahead]; rfl)]
      simp only [stringValue, bind_assoc, pure_bind]
      rw [current_eq]
      simp [Token.text, Token.kind, ahead, Lexeme.kind, Lexeme.text, Lexeme.value?]
  | punctuator mark => cases mark <;> rfl
  | sof | eof | comment text => rfl

namespace Program

variable {levels : Nat} {α : Type}

def name : Program levels .onward name :=
  looking fun _ => past word fun _ => located

def variableRef : Program levels .onward variableRef :=
  looking fun _ => past (mark .dollar) fun _ => onto name fun _ => located

def leaf {kind : TokenKind} (spelled : kind.isSpelled = true) {make : Option Location → α} :
    Program levels .onward (leaf kind make) :=
  looking fun _ => past (.step (.expect spelled)) fun _ => located

def refuseVariable : Program levels .onward refuseVariable :=
  looking fun start => past (mark .dollar) fun _ => onto (.step .current) fun token =>
    match token.lexeme with
    | .name text => (.step (.fail start (.constVariable text)) : Program levels .still _)
    | .sof | .eof | .punctuator _ | .int _ | .float _ | .string _ | .blockString _ | .comment _ =>
        .step (.fail start (.unexpected start.lexeme))

def objectField {inner : Parser Value} (program : Program levels .opening inner) :
    Program levels .onward (objectField inner) :=
  looking fun _ =>
    past name fun _ =>
    onto (mark .colon) fun _ =>
    onto program fun _ =>
    located

def valueAt (isConst : Bool) (program : Program levels .opening (Parser.value isConst levels))
    (start : Token) : (lexeme : Lexeme) →
      Program levels .onward (valueAt isConst (Parser.value isConst levels) start lexeme)
  | .punctuator .bracketOpen =>
      past (any (.value isConst) program .bracketOpen _) fun _ => located
  | .punctuator .braceOpen =>
      past (any (.objectField isConst) (opening (objectField program)) .braceOpen _) fun _ =>
        located
  | .int _ | .float _ | .string _ | .blockString _ | .name _ => leaf rfl
  | .punctuator .dollar =>
      .branch _ refuseVariable (past variableRef fun _ => .step (.pure _))
  | .punctuator .ampersand | .punctuator .atSign | .punctuator .bang | .punctuator .colon
  | .punctuator .braceClose | .punctuator .ellipsis | .punctuator .equals
  | .punctuator .parenClose | .punctuator .parenOpen | .punctuator .pipe
  | .punctuator .bracketClose | .sof | .eof | .comment _ => .step .unexpected

def value (isConst : Bool) : (levels : Nat) → Program levels .opening (value isConst levels)
  | 0 => .refuse
  | levels + 1 => .nested <| .same (valueBody_eq ..) <|
      looking fun start => valueAt isConst (value isConst levels) start start.lexeme

def argument (isConst : Bool) : Program levels .onward (argument isConst levels) :=
  looking fun _ =>
    past name fun _ =>
    onto (mark .colon) fun _ =>
    onto (value isConst levels) fun _ =>
    located

def arguments (isConst : Bool) : Program levels .still (arguments isConst levels) :=
  optionalMany (.argument isConst) (opening (argument isConst)) .parenOpen _

def directive (isConst : Bool) : Program levels .onward (directive isConst levels) :=
  looking fun _ =>
    past (mark .atSign) fun _ =>
    onto name fun _ =>
    onto (arguments isConst) fun _ =>
    located

def directives (isConst : Bool) : Program levels .free (directives isConst levels) :=
  whileAt (.directive isConst) (opening (directive isConst)) _

def namedType : Program levels .onward namedType :=
  looking fun _ => past name fun _ => located

def typeEnd {start : Token} {type : NullableType} : Program levels .still (do
    if ← accept (.punctuator .bang) then return .nonNull type (← span start)
    else return TypeRef.nullable type) :=
  .offer (.mark .bang) located (.step (.pure _))

def typeRefBody {inner : Parser TypeRef} (program : Program levels .opening inner) :
    Program levels .onward (typeRefBody inner) :=
  looking fun _ => .offer (.mark .bracketOpen)
    (onto program fun _ =>
      onto (mark .bracketClose) fun _ =>
      onto (.step (.span _)) fun _ =>
      onto (.step (.pure _)) fun _ =>
      typeEnd)
    (past namedType fun _ => onto (.step (.pure _)) fun _ => typeEnd)

def typeRef : (levels : Nat) → Program levels .opening (typeRef levels)
  | 0 => .refuse
  | levels + 1 => .nested (typeRefBody (typeRef levels))

def defaultValue : Program levels .still (defaultValue levels) :=
  .offer (.mark .equals) (onto (value true levels) fun _ => .step (.pure _)) (.step (.pure _))

end Program

end GraphQL.Parser
