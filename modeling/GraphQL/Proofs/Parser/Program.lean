import GraphQL.Parser.Document
import GraphQL.Proofs.Parser.Left

/-!
How parsers are put together, and how much they do. A parser is a program of steps, of loops over
items and of nodes that nest. What it does is counted: the items that its loops begin and the nodes
that it opens. A token that the parser moves past pays for one item and for one node, and the pace
of a program tells when it can pay: every item and every node moves past a token of its own before
it begins another one.
-/

namespace GraphQL.Parser

/-! Work, and how it is counted. -/

/-- How often something was begun, and how often it was not finished when a run stopped. -/
structure Tally where
  begun : Nat
  unfinished : Nat
deriving DecidableEq, Repr

namespace Tally

instance : Zero Tally := ⟨⟨0, 0⟩⟩

instance : Add Tally := ⟨fun first next =>
  ⟨first.begun + next.begun, first.unfinished + next.unfinished⟩⟩

def around (finished : Bool) (inside : Tally) : Tally :=
  ⟨inside.begun + 1, if finished then inside.unfinished else inside.unfinished + 1⟩

end Tally

/-- The items that loops began, one in each of their iterations, and the nodes that nest that were
opened, one in each call of a production that calls itself. A loop with an item that was not
finished is open, and so is a node that was not finished. -/
structure Work where
  items : Tally
  nodes : Tally
deriving DecidableEq, Repr

namespace Work

instance : Zero Work := ⟨⟨0, 0⟩⟩

instance : Add Work := ⟨fun first next => ⟨first.items + next.items, first.nodes + next.nodes⟩⟩

end Work

def succeeded : EStateM.Result SyntaxError State α → Bool
  | .ok _ _ => true
  | .error _ _ => false

/-- The work of a parser from each state. There is none where the parser did not come to its end,
because it used up its rounds or its levels. -/
abbrev Count := State → Option Work

namespace Count

def nothing : Count := fun _ => some 0

def andThen (first : Parser α) (count : Count) (next : α → Count) : Count := fun s =>
  match count s, first s with
  | none, _ => none
  | some done, .ok part s₁ => (next part s₁).map (done + ·)
  | some done, .error _ _ => some done

def ofItem (item : Parser α) (count : Count) : Count := fun s =>
  (count s).map fun inside =>
    { inside with items := inside.items.around (succeeded (item s)) }

def ofNode (body : Parser α) (count : Count) : Count := fun s =>
  if s.depth < s.options.maxNestingDepth then
    (count s.opened).map fun inside =>
      { inside with nodes := inside.nodes.around (succeeded (body s.opened)) }
  else some 0

def ofRefused : Count := fun s =>
  if s.depth < s.options.maxNestingDepth then none else some 0

def ofRounds (goesOn : Parser Bool) (item : Parser α) (again : Parser Bool) (count : Count) :
    (rounds : Nat) → Count
  | 0 => fun _ => none
  | rounds + 1 =>
      andThen goesOn nothing fun
        | true =>
            andThen item (ofItem item count) fun _ =>
              andThen again nothing fun
                | true => ofRounds goesOn item again count rounds
                | false => nothing
        | false => nothing

def ofLoop (goesOn : Parser Bool) (item : Parser α) (again : Parser Bool) (count : Count) : Count :=
  fun s => ofRounds goesOn item again count (s.upcoming.items.length + 2) s

end Count

/-! All loops are one. -/

/-- Items one behind the other. Whether there is another one is told in front of it and behind the
one before it. -/
def repeated (goesOn : Parser Bool) (item : Parser α) (again : Parser Bool) :
    (rounds : Nat) → Parser (List α)
  | 0 => unexpected
  | rounds + 1 => do
      if ← goesOn then
        let first ← item
        if ← again then return first :: (← repeated goesOn item again rounds) else return [first]
      else return []

def closes (closing : TokenKind) : Parser Bool := not <$> accept closing

def begins (mark : TokenKind) : Parser Bool := (fun token => decide (token.kind = mark)) <$> current

section
variable (kind : TokenKind) (item : Parser α)

theorem itemsUntil_eq : itemsUntil kind item = repeated (pure true) item (closes kind) := by
  funext rounds
  induction rounds with
  | zero => rfl
  | succ rounds ih =>
      simp only [itemsUntil, repeated, closes, ih, pure_bind, if_true, map_eq_pure_bind, bind_assoc]
      congr; funext first; congr; funext done
      cases done <;> rfl

theorem anyUntil_eq : anyUntil kind item = repeated (closes kind) item (pure true) := by
  funext rounds
  induction rounds with
  | zero => rfl
  | succ rounds ih =>
      simp only [anyUntil, repeated, closes, ih, pure_bind, if_true, map_eq_pure_bind, bind_assoc]
      congr; funext done
      cases done <;> rfl

theorem separated_eq : separated kind item = repeated (pure true) item (accept kind) := by
  funext rounds
  induction rounds with
  | zero => rfl
  | succ rounds ih => simp only [separated, repeated, ih, pure_bind, if_true]

theorem whileAt_eq : whileAt kind item = repeated (begins kind) item (pure true) := by
  funext rounds
  induction rounds with
  | zero => rfl
  | succ rounds ih =>
      simp only [whileAt, repeated, begins, ih, pure_bind, if_true, map_eq_pure_bind, bind_assoc,
        decide_eq_true_eq]

end

/-! How the pieces of a parser pay for what they begin. -/

/-- What a parser owes for what it begins, over the tokens that it moves past. One that succeeds
begins less by `spare`. Where one fails while something is open, it may have begun more by
`credit`. -/
structure Terms where
  spare : Nat
  credit : Nat

/-- How a parser goes about its tokens. Onward, it moves past one before it begins anything.
Opening, it may open a node first, but begins no item before it has moved past a token. Still, it
need not move, but begins nothing before it has. Free, it may begin anything at once. -/
inductive Pace where
  | onward
  | opening
  | still
  | free

namespace Pace

def items : Pace → Terms
  | onward | opening => ⟨1, 0⟩
  | still => ⟨0, 0⟩
  | free => ⟨0, 1⟩

def nodes : Pace → Terms
  | onward => ⟨1, 0⟩
  | still => ⟨0, 0⟩
  | opening | free => ⟨0, 1⟩

inductive Chain : Pace → Pace → Pace → Prop
  | still {pace : Pace} : Chain .still pace pace
  | onward {next : Pace} : Chain .onward next .onward
  | opening {next : Pace} : Chain .opening next .opening
  | free {first next : Pace} : Chain first next .free

/-- A pace that promises as much as another one: most is promised onward, and nothing free. -/
inductive Within : Pace → Pace → Prop
  | onward {pace : Pace} : Within .onward pace
  | free {pace : Pace} : Within pace .free

end Pace

/-- The productions that loops repeat. -/
inductive IsItem (levels : Nat) : {α : Type} → Parser α → Prop
  | definition : IsItem levels (definition levels)
  | selection : IsItem levels (selection (selectionSet levels) levels)
  | variableDefinition : IsItem levels (variableDefinition levels)
  | argument (isConst : Bool) : IsItem levels (argument isConst levels)
  | directive (isConst : Bool) : IsItem levels (directive isConst levels)
  | value (isConst : Bool) : IsItem levels (value isConst levels)
  | objectField (isConst : Bool) : IsItem levels (objectField (value isConst levels))
  | operationTypeDefinition : IsItem levels operationTypeDefinition
  | fieldDefinition : IsItem levels (fieldDefinition levels)
  | inputValueDefinition : IsItem levels (inputValueDefinition levels)
  | enumValueDefinition : IsItem levels (enumValueDefinition levels)
  | namedType : IsItem levels namedType
  | directiveLocation : IsItem levels directiveLocation

/-- Single steps, which begin nothing. One that fails keeps to any pace. -/
inductive Step : Pace → {α : Type} → Parser α → Prop
  | pure {α : Type} (result : α) : Step .still (pure result)
  | current : Step .still current
  | advance : Step .still advance
  | lookahead : Step .still lookahead
  | span (start : Token) : Step .still (span start)
  | allowsFragmentVariables : Step .still allowsFragmentVariables
  | fail {pace : Pace} {α : Type} (token : Token) (complaint : Complaint) :
      Step pace (fail token complaint : Parser α)
  | unexpected {pace : Pace} {α : Type} : Step pace (unexpected : Parser α)
  | expect {kind : TokenKind} (spelled : kind.isSpelled = true) : Step .onward (expect kind)
  | expectMark (kind : TokenKind) : Step .still (expect kind)
  | expectKeyword (keyword : String) : Step .onward (expectKeyword keyword)
  | accept (kind : TokenKind) : Step .still (accept kind)
  | map {pace : Pace} {α β : Type} {parser : Parser α} (change : α → β) (step : Step pace parser) :
      Step pace (change <$> parser)

theorem Step.closes (closing : TokenKind) : Step .still (closes closing) :=
  .map not (.accept closing)

theorem Step.begins (mark : TokenKind) : Step .still (begins mark) := .map _ .current

/-- Steps that have moved past a token if they answer that they have. -/
inductive Offer : Parser Bool → Prop
  | accept {kind : TokenKind} (spelled : kind.isSpelled = true) : Offer (accept kind)
  | acceptKeyword (keyword : String) : Offer (acceptKeyword keyword)

theorem Offer.mark (mark : Punctuator) : Offer (Parser.accept (.punctuator mark)) := .accept rfl

/-- A parser as a program, in which `levels` nodes may still open in one another. The program is
indexed by the parser that it is a program of, so nothing that the parser does is left out of it. -/
inductive Program : (levels : Nat) → Pace → {α : Type} → Parser α → Type 1
  | step {levels : Nat} {pace : Pace} {α : Type} {parser : Parser α} (step : Step pace parser) :
      Program levels pace parser
  | bind {levels : Nat} {one other pace : Pace} {α β : Type} {first : Parser α}
      {next : α → Parser β} (chain : Pace.Chain one other pace) (program : Program levels one first)
      (behind : (part : α) → Program levels other (next part)) :
      Program levels pace (first >>= next)
  | offer {levels : Nat} {pace other : Pace} {β : Type} {offered : Parser Bool}
      {next : Bool → Parser β} (offer : Offer offered) (taken : Program levels other (next true))
      (refused : Program levels pace (next false)) : Program levels pace (offered >>= next)
  | branch {levels : Nat} {pace : Pace} {α : Type} {yes no : Parser α} (condition : Prop)
      [decidable : Decidable condition] (yes' : Program levels pace yes)
      (no' : Program levels pace no) : Program levels pace (if condition then yes else no)
  | map {levels : Nat} {pace : Pace} {α β : Type} {parser : Parser α} (change : α → β)
      (program : Program levels pace parser) : Program levels pace (change <$> parser)
  | within {levels : Nat} {pace other : Pace} {α : Type} {parser : Parser α}
      (within : Pace.Within pace other) (program : Program levels pace parser) :
      Program levels other parser
  | same {levels : Nat} {pace : Pace} {α : Type} {parser other : Parser α} (same : parser = other)
      (program : Program levels pace other) : Program levels pace parser
  | loop {levels : Nat} {α : Type} {goesOn again : Parser Bool} {item : Parser α}
      (isItem : IsItem levels item) (before : Step .still goesOn) (behind : Step .still again)
      (program : Program levels .opening item) :
      Program levels .free (rounds >>= repeated goesOn item again)
  | nested {levels : Nat} {α : Type} {body : Parser α} (program : Program levels .onward body) :
      Program (levels + 1) .opening (nested body)
  | refuse {α : Type} : Program 0 .opening (tooDeep : Parser α)

namespace Program

/-- The work of a program. Its loops run in more rounds than there are tokens ahead. -/
def work {levels : Nat} {pace : Pace} {α : Type} {parser : Parser α} :
    Program levels pace parser → Count
  | step _ => .nothing
  | @bind _ _ _ _ _ _ first _ _ program behind =>
      .andThen first program.work fun part => (behind part).work
  | @offer _ _ _ _ offered _ _ taken refused =>
      .andThen offered .nothing fun answer =>
        match answer with
        | true => taken.work
        | false => refused.work
  | @branch _ _ _ _ _ condition _ yes no => fun s => if condition then yes.work s else no.work s
  | map _ program => program.work
  | within _ program => program.work
  | same _ program => program.work
  | @loop _ _ goesOn again item _ _ _ program => .ofLoop goesOn item again program.work
  | @nested _ _ body program => .ofNode body program.work
  | refuse => .ofRefused

variable {levels : Nat} {pace other : Pace} {α β : Type}

def looking {next : Token → Parser α}
    (program : (start : Token) → Program levels pace (next start)) :
    Program levels pace (current >>= next) := .bind .still (.step .current) program

def past {first : Parser α} {next : α → Parser β} (program : Program levels .onward first)
    (behind : (part : α) → Program levels other (next part)) :
    Program levels .onward (first >>= next) := .bind .onward program behind

def opens {first : Parser α} {next : α → Parser β} (program : Program levels .opening first)
    (behind : (part : α) → Program levels other (next part)) :
    Program levels .opening (first >>= next) := .bind .opening program behind

def onto {first : Parser α} {next : α → Parser β} (program : Program levels pace first)
    (behind : (part : α) → Program levels other (next part)) :
    Program levels .free (first >>= next) := .bind .free program behind

def mark (mark : Punctuator) : Program levels .onward (expect (.punctuator mark)) :=
  .step (.expect rfl)

def word : Program levels .onward (expect .name) := .step (.expect rfl)

def located {start : Token} {make : Option Location → α} :
    Program levels .still (do return make (← span start)) :=
  .bind .still (.step (.span start)) fun _ => .step (.pure _)

def asked {offered : Parser Bool} (offer : Offer offered) : Program levels .still offered :=
  .same (bind_pure offered).symm (.offer offer (.step (.pure true)) (.step (.pure false)))

section
variable {item : Parser α} (isItem : IsItem levels item) (program : Program levels .opening item)

def itemsUntil (closing : TokenKind) :
    Program levels .free (do itemsUntil closing item (← rounds)) :=
  .same (by rw [itemsUntil_eq]) (.loop isItem (.pure true) (.closes closing) program)

def anyUntil (closing : TokenKind) : Program levels .free (do anyUntil closing item (← rounds)) :=
  .same (by rw [anyUntil_eq]) (.loop isItem (.closes closing) (.pure true) program)

def many (opening : Punctuator) (closing : TokenKind) :
    Program levels .onward (many (.punctuator opening) item closing) :=
  past (mark opening) fun _ => itemsUntil isItem program closing

def any (opening : Punctuator) (closing : TokenKind) :
    Program levels .onward (any (.punctuator opening) item closing) :=
  past (mark opening) fun _ => anyUntil isItem program closing

def optionalMany (opening : Punctuator) (closing : TokenKind) :
    Program levels .still (optionalMany (.punctuator opening) item closing) :=
  .offer (.mark opening) (itemsUntil isItem program closing) (.step (.pure []))

def delimited (separator : Punctuator) :
    Program levels .free (delimited (.punctuator separator) item) :=
  onto (.step (.accept _)) fun _ =>
    .same (by rw [separated_eq])
      (.loop isItem (.pure true) (.accept (.punctuator separator)) program)

def whileAt (mark : TokenKind) : Program levels .free (do whileAt mark item (← rounds)) :=
  .same (by rw [whileAt_eq]) (.loop isItem (.begins mark) (.pure true) program)

end

def opening {parser : Parser α} (program : Program levels .onward parser) :
    Program levels .opening parser := .within .onward program

end Program

end GraphQL.Parser
