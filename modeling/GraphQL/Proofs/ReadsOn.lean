import GraphQL.Proofs.Interleaving

/-!
Reading takes no notice of where a lexer stands, so all lexers over a source read the same tokens,
whatever they are asked for, and differ only in how far they have read.
-/

namespace GraphQL.Lexer

variable {lexer next : Lexer}

def reads (lexer : Lexer) : (count : Nat) → Lexer
  | 0 => lexer
  | count + 1 => lexer.read.2.reads count

structure ReadAlike (lexer other : Lexer) : Prop where
  source : lexer.source = other.source
  tokens : lexer.tokens = other.tokens
  scan : lexer.scan = other.scan

def ReadsOn (lexer next : Lexer) : Prop := ∃ count, next.ReadAlike (lexer.reads count)

theorem ReadAlike.read {other : Lexer} (alike : lexer.ReadAlike other) :
    lexer.read.2.ReadAlike other.read.2 := by
  obtain ⟨source, tokens, scan⟩ := alike
  unfold Lexer.read
  rw [source, tokens, scan]
  cases other.scan.read other.source (other.tokens.size - 1) with
  | mk answer next => cases answer <;> exact ⟨rfl, rfl, rfl⟩

theorem ReadAlike.reads {other : Lexer} (alike : lexer.ReadAlike other) (count : Nat) :
    (lexer.reads count).ReadAlike (other.reads count) := by
  induction count generalizing lexer other with
  | zero => exact alike
  | succ count ih => exact ih alike.read

theorem reads_add (lexer : Lexer) (first second : Nat) :
    lexer.reads (first + second) = (lexer.reads first).reads second := by
  induction first generalizing lexer with
  | zero =>
      rw [Nat.zero_add]
      rfl
  | succ first ih =>
      rw [Nat.succ_add]
      exact ih lexer.read.2

theorem reads_extends (lexer : Lexer) (count : Nat) :
    lexer.tokens.toList <+: (lexer.reads count).tokens.toList := by
  induction count generalizing lexer with
  | zero => exact List.prefix_refl _
  | succ count ih =>
      refine List.IsPrefix.trans ?_ (ih lexer.read.2)
      cases read : lexer.read with
      | mk answer next =>
      cases answer with
      | ok token =>
          rw [read_kept read]
          exact List.prefix_append _ _
      | error error =>
          refine ⟨[], ?_⟩
          rw [read_failed read, List.append_nil]

namespace ReadsOn

theorem of_alike {other : Lexer} (alike : other.ReadAlike lexer) : lexer.ReadsOn other :=
  ⟨0, alike⟩

theorem trans {second : Lexer} (first : lexer.ReadsOn second) (more : second.ReadsOn next) :
    lexer.ReadsOn next := by
  obtain ⟨count, alike⟩ := first
  obtain ⟨others, behind⟩ := more
  obtain ⟨source, tokens, scan⟩ := alike.reads others
  refine ⟨count + others, ?_⟩
  rw [reads_add]
  exact ⟨behind.source.trans source, behind.tokens.trans tokens, behind.scan.trans scan⟩

theorem read (lexer : Lexer) : lexer.ReadsOn lexer.read.2 := ⟨1, rfl, rfl, rfl⟩

theorem of_comes {outcome : Except SyntaxError Token × Lexer} (comes : lexer.Comes outcome) :
    lexer.ReadsOn outcome.2 := by
  induction comes with
  | @token lexer _ _ first _ | @failed lexer _ _ first =>
      have once := read lexer
      rwa [first] at once
  | @comment lexer _ _ _ first _ _ ih =>
      have once := read lexer
      rw [first] at once
      exact once.trans ih

theorem lookahead (lexer : Lexer) : lexer.ReadsOn lexer.lookahead.2 := by
  have looks := lexer.looks
  generalize lexer.lookahead = outcome at looks
  cases looks with
  | ended ends => exact of_alike ⟨rfl, rfl, rfl⟩
  | seen _ _ => exact of_alike ⟨rfl, rfl, rfl⟩
  | failed _ _ comes => exact of_comes comes
  | token _ _ comes => exact (of_comes comes).trans (of_alike ⟨rfl, rfl, rfl⟩)

theorem call (lexer : Lexer) (call : Call) : lexer.ReadsOn (lexer.call call).2 := by
  have more := lookahead lexer
  cases call with
  | lookahead => exact more
  | advance =>
      show lexer.ReadsOn lexer.advance.2
      cases shown : lexer.lookahead with
      | mk answer next =>
      rw [shown] at more
      cases answer with
      | error error =>
          rw [advance_of_failed shown]
          exact more
      | ok token =>
          rw [advance_of_shown shown]
          exact more.trans (of_alike ⟨rfl, rfl, rfl⟩)

theorem run (lexer : Lexer) (calls : List Call) : lexer.ReadsOn (lexer.run calls).2 := by
  induction calls generalizing lexer with
  | nil => exact of_alike ⟨rfl, rfl, rfl⟩
  | cons first rest ih => exact (call lexer first).trans (ih (lexer.call first).2)

theorem comparable {other : Lexer} (first : lexer.ReadsOn next) (second : lexer.ReadsOn other) :
    next.tokens.toList <+: other.tokens.toList ∨ other.tokens.toList <+: next.tokens.toList := by
  obtain ⟨fewer, alike⟩ := first
  obtain ⟨more, behind⟩ := second
  have ordered {few many : Nat} (order : few ≤ many) :
      (lexer.reads few).tokens.toList <+: (lexer.reads many).tokens.toList := by
    obtain ⟨others, rfl⟩ := Nat.exists_eq_add_of_le order
    rw [reads_add]
    exact reads_extends _ others
  rw [alike.tokens, behind.tokens]
  rcases Nat.le_total fewer more with order | order
  · exact .inl (ordered order)
  · exact .inr (ordered order)

end ReadsOn

/-- Whatever calls two lexers over a source have answered, what both have read is the same. -/
theorem run_tokens_eq (source : Source) {calls others : List Call} {place : Nat}
    (first : place < ((ofSource source).run calls).2.tokens.size)
    (second : place < ((ofSource source).run others).2.tokens.size) :
    ((ofSource source).run calls).2.tokens.toList.take (place + 1) =
      ((ofSource source).run others).2.tokens.toList.take (place + 1) := by
  rw [← Array.length_toList] at first second
  rcases (ReadsOn.run (ofSource source) calls).comparable (.run _ others) with front | front
  · obtain ⟨more, same⟩ := front
    rw [← same, List.take_append_of_le_length first]
  · obtain ⟨more, same⟩ := front
    rw [← same, List.take_append_of_le_length second]

end GraphQL.Lexer
