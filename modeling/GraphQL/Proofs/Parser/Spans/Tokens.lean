import GraphQL.Proofs.Parser.Spans.Document

/-!
Which tokens a node was read from. States stand at tokens, and on the way from one state to
another some tokens are passed; the parts of a node take theirs one behind the other.
-/

namespace GraphQL

/-- A node is spelled by these tokens, and located from the first of them to the last. -/
structure Node.ReadFrom (source : Source) (node : Node) (taken : List Token) : Prop where
  spelled : node.IsSpelled (taken.map Token.lexeme)
  located : ∃ first last, taken.head? = some first ∧ taken.getLast? = some last ∧
    node.loc = some (.between source first last)

/-- Nodes are read one behind the other from parts of some tokens. -/
inductive LaidOut (source : Source) : List Node → List Token → Prop
  | nil {taken : List Token} : LaidOut source [] taken
  | cons {node : Node} {nodes : List Node} {part rest : List Token} (gap : List Token)
      (first : node.ReadFrom source part) (others : LaidOut source nodes rest) :
      LaidOut source (node :: nodes) (gap ++ (part ++ rest))

namespace Parser

def EndsWith (tokens : List Token) (last : Token) : Prop :=
  tokens.getLast? = some last ∧ last.lexeme = .eof ∧
    ∀ token ∈ tokens.dropLast, token.lexeme ≠ .eof

/-- The state stands at one of these tokens behind those that it passed. -/
structure Stands (tokens passed : List Token) (s : State) : Prop where
  ahead : ∃ behind last, tokens = passed ++ s.current :: behind ∧
    EndsWith (s.current :: behind) last ∧ s.upcoming = ⟨behind.dropLast.map .ok, .ok last⟩
  last : ∀ token ∈ passed.getLast?, s.last = token

theorem Moves.source {s s' : State} {lexemes : List Lexeme} (moves : Moves s lexemes s') :
    s'.source = s.source := by
  induction moves with
  | stay => rfl
  | step moved _ ih => exact ih.trans (advance_keeps moved).1

theorem EndsWith.eof_iff {token last : Token} {behind : List Token}
    (ends : EndsWith (token :: behind) last) : token.lexeme = .eof ↔ behind = [] := by
  obtain ⟨isLast, isEnd, others⟩ := ends
  cases behind with
  | nil =>
      obtain rfl : token = last := by simpa using isLast
      exact iff_of_true isEnd rfl
  | cons next rest =>
      refine iff_of_false (others token ?_) (List.cons_ne_nil _ _)
      rw [List.dropLast_cons_of_ne_nil (List.cons_ne_nil _ _)]
      exact List.mem_cons_self

theorem EndsWith.tail {token next last : Token} {behind : List Token}
    (ends : EndsWith (token :: next :: behind) last) : EndsWith (next :: behind) last := by
  obtain ⟨isLast, isEnd, others⟩ := ends
  refine ⟨by simpa using isLast, isEnd, fun other member => others other ?_⟩
  rw [List.dropLast_cons_of_ne_nil (List.cons_ne_nil _ _)]
  exact List.mem_cons_of_mem _ member

section
variable {tokens passed : List Token} {s s' : State}

theorem Stands.advance (stands : Stands tokens passed s) (moved : advance s = .ok () s')
    (more : s.current.lexeme ≠ .eof) : Stands tokens (passed ++ [s.current]) s' := by
  obtain ⟨behind, last, whole, ends, upcoming⟩ := stands.ahead
  obtain ⟨_, next⟩ := advance_ok moved
  rw [upcoming] at next
  constructor
  · cases behind with
    | nil => exact absurd (ends.eof_iff.mpr rfl) more
    | cons token rest =>
        have behind := ends.tail
        cases rest with
        | nil =>
            obtain rfl : token = last := by simpa using behind.1
            obtain ⟨current, onward⟩ := Prod.mk.inj next
            obtain rfl := Except.ok.inj current
            exact ⟨[], s'.current, by simpa using whole, behind, onward⟩
        | cons second others =>
            obtain ⟨current, onward⟩ := Prod.mk.inj next
            obtain rfl := Except.ok.inj current
            exact ⟨second :: others, last, by simpa using whole, behind, onward⟩
  · intro token isLast
    rw [(advance_keeps moved).2]
    simpa using isLast

theorem Stands.unique {others : List Token} (stands : Stands tokens passed s)
    (also : Stands tokens others s) : passed = others := by
  obtain ⟨behind, last, whole, ends, upcoming⟩ := stands.ahead
  obtain ⟨behind', last', whole', ends', upcoming'⟩ := also.ahead
  have alike : behind.length = behind'.length := by
    have items : behind.dropLast.length = behind'.dropLast.length := by
      have same := congrArg (·.items.length) (upcoming.symm.trans upcoming')
      simpa using same
    by_cases isEnd : s.current.lexeme = .eof
    · rw [ends.eof_iff.mp isEnd, ends'.eof_iff.mp isEnd]
    · have some' := List.length_pos_iff.mpr (mt ends.eof_iff.mpr isEnd)
      have some'' := List.length_pos_iff.mpr (mt ends'.eof_iff.mpr isEnd)
      rw [List.length_dropLast, List.length_dropLast] at items
      omega
  exact List.append_inj_left' (whole.symm.trans whole') (by simp [alike])

theorem Stands.moves {used : List Lexeme} (stands : Stands tokens passed s)
    (moves : Moves s used s') (more : ∀ found ∈ used, found ≠ .eof) :
    ∃ taken, Stands tokens (passed ++ taken) s' ∧ taken.map Token.lexeme = used ∧
      (used ≠ [] → taken.head? = some s.current ∧ taken.getLast? = some s'.last) := by
  induction moves generalizing passed with
  | stay => exact ⟨[], by simpa using stands, rfl, fun some' => absurd rfl some'⟩
  | @step s s₁ s' tail moved onward ih =>
      have goesOn : s.current.lexeme ≠ .eof := more _ List.mem_cons_self
      obtain ⟨taken, there, rfl, _⟩ := ih (stands.advance moved goesOn) fun found member =>
        more found (List.mem_cons_of_mem _ member)
      rw [List.append_assoc] at there
      refine ⟨s.current :: taken, there, rfl, fun _ => ⟨rfl, ?_⟩⟩
      cases last : (s.current :: taken).getLast? with
      | none => simp at last
      | some token =>
          have isLast : token ∈ (passed ++ ([s.current] ++ taken)).getLast? := by
            rw [List.getLast?_append, List.singleton_append, last]
            rfl
          rw [there.last token isLast]

theorem ne_eof_of_spelled {used : List Lexeme} (spelled : AllSpelled used) :
    ∀ found ∈ used, found ≠ .eof := fun found member =>
  Lexeme.ne_eof (List.all_eq_true.mp spelled found member)

theorem Stands.reaches (stands : Stands tokens passed s) (reaches : Reaches s s') :
    ∃ taken, Stands tokens (passed ++ taken) s' ∧ s'.source = s.source ∧
      s'.options = s.options := by
  obtain ⟨used, moves, spelled⟩ := reaches
  obtain ⟨taken, there, _⟩ := stands.moves moves (ne_eof_of_spelled spelled)
  exact ⟨taken, there, moves.source, moves.options⟩

theorem Spans.readFrom {node : Node} {taken : List Token} (spans : Spans s node s')
    (stands : Stands tokens passed s) (there : Stands tokens (passed ++ taken) s')
    (located : s.options.noLocation = false) : node.ReadFrom s.source taken := by
  cases spans with
  | node loc moves spelled some' _ =>
      obtain ⟨found, also, rfl, ends⟩ := stands.moves moves (ne_eof_of_spelled spelled.allSpelled)
      obtain rfl := List.append_cancel_left (also.unique there)
      obtain ⟨first, last⟩ := ends some'
      refine ⟨spelled, s.current, s'.last, first, last, ?_⟩
      rw [loc, spanned, moves.options, located, moves.source]
      rfl

theorem Row.laidOut {nodes : List Node} {taken : List Token} (row : Row s nodes s')
    (stands : Stands tokens passed s) (there : Stands tokens (passed ++ taken) s')
    (located : s.options.noLocation = false) : LaidOut s.source nodes taken := by
  induction nodes generalizing s passed taken with
  | nil => exact .nil
  | cons node rest ih =>
      cases row with
      | cons reaches first others =>
          obtain ⟨gap, stands₁, source₁, options₁⟩ := stands.reaches reaches
          obtain ⟨part, stands₂, source₂, options₂⟩ := stands₁.reaches first.reaches
          obtain ⟨behind, also, _⟩ := stands₂.reaches others.reaches
          rw [← options₁] at located
          have readFrom := first.readFrom stands₁ stands₂ located
          rw [← options₂] at located
          have laidOut := ih others stands₂ also located
          have whole : passed ++ (gap ++ (part ++ behind)) = passed ++ taken := by
            simpa using also.unique there
          rw [source₁] at readFrom
          rw [source₂, source₁] at laidOut
          rw [← List.append_cancel_left whole]
          exact .cons gap readFrom laidOut

/-- A node that was read between two states was read from the tokens between them, and so were
its children. -/
theorem Spans.taken {node : Node} (spans : Spans s node s') (stands : Stands tokens passed s)
    (located : s.options.noLocation = false) :
    ∃ taken, Stands tokens (passed ++ taken) s' ∧ node.ReadFrom s.source taken ∧
      LaidOut s.source node.children taken := by
  obtain ⟨taken, there, _⟩ := stands.reaches spans.reaches
  have readFrom := spans.readFrom stands there located
  cases spans with
  | node _ _ _ _ inside => exact ⟨taken, there, readFrom, inside.laidOut stands there located⟩

/-- Everything inside a node was read from tokens behind those that were passed in front of the
node, and not from the last one of all. -/
theorem Stands.inside {s₁ : State} {root node : Node} (stands : Stands tokens passed s)
    (located : s.options.noLocation = false) (reaches : Reaches s s₁) (spans : Spans s₁ root s')
    (inside : node.Inside root) :
    ∃ front taken next behind, tokens = passed ++ front ++ taken ++ next :: behind ∧
      node.ReadFrom s.source taken ∧ LaidOut s.source node.children taken := by
  obtain ⟨s₂, s₃, onward, inner⟩ := spans.inner inside
  obtain ⟨front, stands₁, source₁, options₁⟩ := stands.reaches (reaches.trans onward)
  obtain ⟨taken, stands₂, readFrom, laidOut⟩ := inner.taken stands₁ (by rw [options₁, located])
  obtain ⟨behind, last, all, _⟩ := stands₂.ahead
  rw [source₁] at readFrom laidOut
  exact ⟨front, taken, _, behind, all, readFrom, laidOut⟩

end

end Parser

end GraphQL
