import GraphQL.Proofs.Nodes
import GraphQL.Proofs.Parser.Reads.Loops
import GraphQL.Proofs.Spelled

/-!
Where nodes are read. Each node lies between two states: it is located from the token at which
the first one stands to the one behind which the second one does, and its children lie in
between, one behind the other in the order in which they are written.
-/

namespace GraphQL

/-- The lexemes that can spell a node between the ends of a text, where no document stands. A
definition may have marks that it could leave out. -/
def Node.IsSpelled : Node → List Lexeme → Prop
  | .document _, _ => False
  | .definition inner, used => ∃ full, used = inner.lexemes full
  | node, used => used = node.lexemes

theorem Node.IsSpelled.allSpelled {node : Node} {used : List Lexeme}
    (spelled : node.IsSpelled used) : AllSpelled used := by
  cases node with
  | definition inner =>
      obtain ⟨full, rfl⟩ := spelled
      exact inner.spelled full
  | name inner => exact spelled ▸ inner.spelled
  | document inner => exact spelled.elim
  | variableDefinition inner => exact spelled ▸ inner.spelled
  | selectionSet inner => exact spelled ▸ inner.spelled
  | selection inner => exact spelled ▸ inner.spelled
  | argument inner => exact spelled ▸ inner.spelled
  | value inner => exact spelled ▸ inner.spelled
  | objectField inner => exact spelled ▸ inner.spelled
  | directive inner => exact spelled ▸ inner.spelled
  | type inner => exact spelled ▸ inner.spelled
  | operationType inner => exact spelled ▸ inner.spelled
  | fieldDefinition inner => exact spelled ▸ inner.spelled
  | inputValueDefinition inner => exact spelled ▸ inner.spelled
  | enumValueDefinition inner => exact spelled ▸ inner.spelled

namespace Parser

def spanned (s s' : State) : Option Location :=
  if s'.options.noLocation then none else some (.between s'.source s.current s'.last)

theorem span_spanned {s s₁ s' : State} {loc : Option Location}
    (parsed : span s.current s₁ = .ok loc s') : s₁ = s' ∧ loc = spanned s s₁ := by
  cases parsed
  exact ⟨rfl, rfl⟩

/-- The last step of most productions, which locates what they have made. -/
theorem located_ok {s s₁ s' : State} {make : Option Location → α} {found : α}
    (parsed : (do return make (← span s.current) : Parser α) s₁ = .ok found s') :
    s' = s₁ ∧ found = make (spanned s s') := by
  obtain ⟨loc, s₂, located, parsed⟩ := bind_ok parsed
  obtain ⟨rfl, rfl⟩ := span_spanned located
  cases parsed
  exact ⟨rfl, rfl⟩

/-- A way from one state to another that keeps between the ends of the text. -/
def Reaches (s s' : State) : Prop := ∃ used, Moves s used s' ∧ AllSpelled used

namespace Reaches

variable {s s₁ s' : State}

theorem stay : Reaches s s := ⟨[], .stay, rfl⟩

theorem trans (starts : Reaches s s₁) (ends : Reaches s₁ s') : Reaches s s' := by
  obtain ⟨first, moves, spelled⟩ := starts
  obtain ⟨second, onward, alsoSpelled⟩ := ends
  exact ⟨first ++ second, moves.append onward, allSpelled_append.mpr ⟨spelled, alsoSpelled⟩⟩

theorem of_mark {mark : Lexeme} (moves : Moves s [mark] s') (spelled : mark.isSpelled = true) :
    Reaches s s' := ⟨[mark], moves, allSpelled_cons.mpr ⟨spelled, allSpelled_nil⟩⟩

end Reaches

mutual

/-- A node that was read between two states. -/
inductive Spans : State → Node → State → Prop
  | node {s s' : State} {node : Node} {used : List Lexeme} (loc : node.loc = spanned s s')
      (moves : Moves s used s') (spelled : node.IsSpelled used) (some' : used ≠ [])
      (inside : Row s node.children s') : Spans s node s'

inductive Row : State → List Node → State → Prop
  | nil {s s' : State} (reaches : Reaches s s') : Row s [] s'
  | cons {s s₁ s₂ s' : State} {node : Node} {rest : List Node} (reaches : Reaches s s₁)
      (first : Spans s₁ node s₂) (others : Row s₂ rest s') : Row s (node :: rest) s'

end

section
variable {s s₁ s' : State} {node : Node} {nodes others : List Node}

theorem Spans.reaches (spans : Spans s node s') : Reaches s s' := by
  cases spans with
  | node _ moves spelled _ _ => exact ⟨_, moves, spelled.allSpelled⟩

namespace Row

theorem one (spans : Spans s node s') : Row s [node] s' := .cons .stay spans (.nil .stay)

theorem led (reaches : Reaches s s₁) (row : Row s₁ nodes s') : Row s nodes s' := by
  cases row with
  | nil onward => exact .nil (reaches.trans onward)
  | cons onward first others => exact .cons (reaches.trans onward) first others

theorem append (front : Row s nodes s₁) (behind : Row s₁ others s') :
    Row s (nodes ++ others) s' := by
  induction nodes generalizing s with
  | nil =>
      cases front with
      | nil reaches => exact behind.led reaches
  | cons node rest ih =>
      cases front with
      | cons reaches first onward => exact .cons reaches first (ih onward)

theorem closed (row : Row s nodes s₁) (reaches : Reaches s₁ s') : Row s nodes s' := by
  simpa using row.append (.nil reaches)

theorem reaches (row : Row s nodes s') : Reaches s s' := by
  induction nodes generalizing s with
  | nil =>
      cases row with
      | nil reaches => exact reaches
  | cons node rest ih =>
      cases row with
      | cons reaches first others => exact reaches.trans (first.reaches.trans (ih others))

theorem spans (row : Row s nodes s') (member : node ∈ nodes) :
    ∃ s₁ s₂, Reaches s s₁ ∧ Spans s₁ node s₂ := by
  induction nodes generalizing s with
  | nil => exact absurd member List.not_mem_nil
  | cons first rest ih =>
      cases row with
      | cons reaches spans others =>
          rcases List.mem_cons.mp member with rfl | later
          · exact ⟨_, _, reaches, spans⟩
          · obtain ⟨s₁, s₂, onward, found⟩ := ih others later
            exact ⟨s₁, s₂, reaches.trans (spans.reaches.trans onward), found⟩

end Row

/-- What stands inside a node was read on the way from its beginning to its end. -/
theorem Spans.inner {inner : Node} (inside : inner.Inside node) (spans : Spans s node s') :
    ∃ s₁ s₂, Reaches s s₁ ∧ Spans s₁ inner s₂ := by
  induction inside generalizing s s' with
  | self => exact ⟨s, s', .stay, spans⟩
  | child member _ ih =>
      cases spans with
      | node _ _ _ _ children =>
          obtain ⟨s₁, s₂, reaches, child⟩ := children.spans member
          obtain ⟨s₃, s₄, onward, found⟩ := ih child
          exact ⟨s₃, s₄, reaches.trans onward, found⟩

end

/-! How many nodes are open around it does not matter for where a node is read. -/

theorem Reaches.atDepth {s s' : State} (reaches : Reaches s s') (depth : Nat) :
    Reaches (s.atDepth depth) (s'.atDepth depth) := by
  obtain ⟨used, moves, spelled⟩ := reaches
  exact ⟨used, moves.atDepth depth, spelled⟩

mutual

theorem Spans.atDepth (depth : Nat) {s s' : State} {node : Node} :
    Spans s node s' → Spans (s.atDepth depth) node (s'.atDepth depth)
  | .node loc moves spelled some' inside =>
      .node loc (moves.atDepth depth) spelled some' (Row.atDepth depth inside)

theorem Row.atDepth (depth : Nat) {s s' : State} {nodes : List Node} :
    Row s nodes s' → Row (s.atDepth depth) nodes (s'.atDepth depth)
  | .nil reaches => .nil (reaches.atDepth depth)
  | .cons reaches first others =>
      .cons (reaches.atDepth depth) (Spans.atDepth depth first) (Row.atDepth depth others)

end

theorem Spans.closed {s s' : State} {node : Node} (spans : Spans s.opened node s') :
    Spans s node s'.closed := by
  obtain ⟨used, moves, _⟩ := spans.reaches
  have same : s'.depth = s.depth + 1 := moves.depth
  have back : s'.closed = s'.atDepth s.depth := by rw [State.closed, same, Nat.add_sub_cancel]
  have around : Spans (s.opened.atDepth s.depth) node (s'.atDepth s.depth) :=
    Spans.atDepth s.depth spans
  rwa [back]

/-- A parser of nodes reads each one where it is located. -/
def ReadsNode (parser : Parser α) (node : α → Node) : Prop :=
  ∀ {s s' : State} {result : α}, parser s = .ok result s' → Spans s (node result) s'

def ReadsRow (parser : Parser α) (nodes : α → List Node) : Prop :=
  ∀ {s s' : State} {result : α}, parser s = .ok result s' → Row s (nodes result) s'

theorem nested_spans {body : Parser α} {node : α → Node} (inside : ReadsNode body node) :
    ReadsNode (nested body) node := by
  intro s s' result parsed
  obtain ⟨_, s₁, read, rfl⟩ := nested_ok parsed
  exact (inside read).closed

section
variable {item : Parser α} {node : α → Node} (each : ReadsNode item node)
include each

theorem itemsUntil_row {close : TokenKind} {closing : Lexeme} (fixes : Fixes close closing)
    {rounds : Nat} {s s' : State} {found : List α}
    (parsed : itemsUntil close item rounds s = .ok found s') :
    ∃ s₁, Row s (found.map node) s₁ ∧ Moves s₁ [closing] s' := by
  induction rounds generalizing s found with
  | zero => exact absurd parsed fail_ne_ok
  | succ rounds ih =>
      unfold itemsUntil at parsed
      obtain ⟨first, s₁, one, parsed⟩ := bind_ok parsed
      obtain ⟨taken, s₂, ahead, parsed⟩ := bind_ok parsed
      have spans := each one
      rcases fixes.accept_ok ahead with ⟨rfl, closes⟩ | ⟨rfl, _, rfl⟩
      · cases parsed
        exact ⟨s₁, .one spans, closes⟩
      · obtain ⟨others, s₃, rest, parsed⟩ := bind_ok parsed
        cases parsed
        obtain ⟨s₂, row, closes⟩ := ih rest
        exact ⟨s₂, .cons .stay spans row, closes⟩

theorem anyUntil_row {closing : Punctuator} {rounds : Nat} :
    ReadsRow (anyUntil (.punctuator closing) item rounds) fun found => found.map node := by
  induction rounds with
  | zero =>
      intro s s' found parsed
      exact absurd parsed fail_ne_ok
  | succ rounds ih =>
      intro s s' found parsed
      unfold anyUntil at parsed
      obtain ⟨taken, s₁, ahead, parsed⟩ := bind_ok parsed
      rcases (fixes_mark closing).accept_ok ahead with ⟨rfl, closes⟩ | ⟨rfl, _, rfl⟩
      · cases parsed
        exact .nil (.of_mark closes rfl)
      · obtain ⟨first, s₂, one, parsed⟩ := bind_ok parsed
        obtain ⟨others, s₃, rest, parsed⟩ := bind_ok parsed
        cases parsed
        exact .cons .stay (each one) (ih rest)

theorem many_row {opening closing : Punctuator} :
    ReadsRow (many (.punctuator opening) item (.punctuator closing))
      fun found => found.map node := by
  intro s s' found parsed
  obtain ⟨_, s₁, opened, parsed⟩ := bind_ok parsed
  rw [rounds_eq] at parsed
  have opens := (fixes_mark opening).expect_ok opened
  obtain ⟨s₂, row, closes⟩ := itemsUntil_row each (fixes_mark closing) parsed
  exact (row.closed (.of_mark closes rfl)).led (.of_mark opens rfl)

theorem any_row {opening closing : Punctuator} :
    ReadsRow (any (.punctuator opening) item (.punctuator closing))
      fun found => found.map node := by
  intro s s' found parsed
  obtain ⟨_, s₁, opened, parsed⟩ := bind_ok parsed
  rw [rounds_eq] at parsed
  have opens := (fixes_mark opening).expect_ok opened
  exact (anyUntil_row each parsed).led (.of_mark opens rfl)

theorem optionalMany_row {opening closing : Punctuator} :
    ReadsRow (optionalMany (.punctuator opening) item (.punctuator closing))
      fun found => found.map node := by
  intro s s' found parsed
  obtain ⟨taken, s₁, opened, parsed⟩ := bind_ok parsed
  rcases (fixes_mark opening).accept_ok opened with ⟨rfl, opens⟩ | ⟨rfl, _, rfl⟩
  · simp only [if_true] at parsed
    rw [rounds_eq] at parsed
    obtain ⟨s₂, row, closes⟩ := itemsUntil_row each (fixes_mark closing) parsed
    exact (row.closed (.of_mark closes rfl)).led (.of_mark opens rfl)
  · cases parsed
    exact .nil .stay

theorem separated_row {mark : Punctuator} {rounds : Nat} :
    ReadsRow (separated (.punctuator mark) item rounds) fun found => found.map node := by
  induction rounds with
  | zero =>
      intro s s' found parsed
      exact absurd parsed fail_ne_ok
  | succ rounds ih =>
      intro s s' found parsed
      unfold separated at parsed
      obtain ⟨first, s₁, one, parsed⟩ := bind_ok parsed
      obtain ⟨taken, s₂, ahead, parsed⟩ := bind_ok parsed
      rcases (fixes_mark mark).accept_ok ahead with ⟨rfl, between⟩ | ⟨rfl, _, rfl⟩
      · obtain ⟨others, s₃, rest, parsed⟩ := bind_ok parsed
        cases parsed
        exact .cons .stay (each one) ((ih rest).led (.of_mark between rfl))
      · cases parsed
        exact .one (each one)

theorem delimited_row {mark : Punctuator} :
    ReadsRow (delimited (.punctuator mark) item) fun found => found.map node := by
  intro s s' found parsed
  obtain ⟨taken, s₁, ahead, parsed⟩ := bind_ok parsed
  rw [rounds_eq] at parsed
  have row := separated_row each parsed
  rcases (fixes_mark mark).accept_ok ahead with ⟨_, led⟩ | ⟨_, _, rfl⟩
  · exact row.led (.of_mark led rfl)
  · exact row

theorem whileAt_row {mark : TokenKind} {rounds : Nat} :
    ReadsRow (whileAt mark item rounds) fun found => found.map node := by
  induction rounds with
  | zero =>
      intro s s' found parsed
      exact absurd parsed fail_ne_ok
  | succ rounds ih =>
      intro s s' found parsed
      unfold whileAt at parsed
      rw [current_eq] at parsed
      split at parsed
      · obtain ⟨first, s₁, one, parsed⟩ := bind_ok parsed
        obtain ⟨others, s₂, rest, parsed⟩ := bind_ok parsed
        cases parsed
        exact .cons .stay (each one) (ih rest)
      · cases parsed
        exact .nil .stay

end

end Parser

end GraphQL
