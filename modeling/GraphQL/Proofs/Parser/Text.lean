import GraphQL.Proofs.Parser.Finds.Loops
import GraphQL.Proofs.Spelled

/-!
From texts to states. A parser at the start of a source can move past exactly the lexemes that
the source has, if they are not too many.
-/

namespace GraphQL

namespace TokenStream

theorem Sane.cons {stream : TokenStream} (sane : stream.Sane) {item : Except SyntaxError Token}
    (goesOn : ∀ token, item = .ok token → token.lexeme ≠ .eof) : (stream.cons item).Sane where
  goesOn token member := by
    rcases List.mem_cons.mp member with same | later
    · exact goesOn token same.symm
    · exact sane.goesOn token later
  ends := sane.ends

theorem sane_ofScan {source : Source} {reads : Nat} :
    ∀ {prev : Nat} {scan : Scan}, scan.rest.length ≤ reads →
      (ofScan source prev scan reads).Sane := by
  induction reads with
  | zero =>
      intro prev scan short
      have empty : scan.rest = [] := List.length_eq_zero_iff.mp (by omega)
      refine ⟨fun _ member => absurd member List.not_mem_nil, ?_⟩
      intro token ending
      obtain ⟨size, reading, _⟩ := Scan.read_ok (Prod.ext ending rfl)
      rw [empty] at reading
      exact (Except.ok.inj (congrArg Lexical.Reading.outcome reading)).symm
  | succ reads ih =>
      intro prev scan short
      rw [ofScan]
      cases read : scan.read source prev with
      | mk result next =>
      cases result with
      | error error =>
          dsimp only
          split
          · rename_i shorter
            have bound := dropWhile_length_le scan.rest
            rw [Scan.rest_skipIgnored] at shorter
            exact (ih (by omega)).cons (by simp)
          · exact ⟨fun _ member => absurd member List.not_mem_nil, by simp⟩
      | ok token =>
          obtain ⟨size, reading, rest⟩ := Scan.read_ok read
          dsimp only
          split
          · rename_i ends
            refine ⟨fun _ member => absurd member List.not_mem_nil, ?_⟩
            intro last same
            cases same
            exact ends
          · rename_i more
            have shorter := length_behind_lt reading more
            rw [← rest] at shorter
            refine (ih (by omega)).cons ?_
            intro other same
            cases same
            exact more

theorem sane_ofSource (source : Source) : (ofSource source).Sane := sane_ofScan (Nat.le_refl _)

theorem Sane.significant {stream : TokenStream} (sane : stream.Sane) : stream.significant.Sane where
  goesOn token member := sane.goesOn token (List.mem_filter.mp member).1
  ends := sane.ends

end TokenStream

namespace Parser

theorem sane_ofSource (source : Source) (options : Options) :
    (State.ofSource source options).Sane where
  stream := (TokenStream.sane_ofSource source).significant
  ended := by rintro ⟨⟩

theorem ready_ofSource {options other : Options} {levels : Nat} (source : Source)
    (noLocation : other.noLocation = options.noLocation)
    (fragmentVariables : other.fragmentVariables = options.fragmentVariables)
    (room : levels ≤ other.maxNestingDepth) :
    (State.ofSource source other).Ready options levels where
  noLocation := noLocation
  fragmentVariables := fragmentVariables
  sane := sane_ofSource source other
  room := by
    show 0 + levels ≤ other.maxNestingDepth
    rwa [Nat.zero_add]

theorem advance_eq {s : State} {token : Token} {upcoming : TokenStream}
    (ahead : s.upcoming.next = (.ok token, upcoming))
    (few : token.lexeme ≠ .eof → ∀ limit, s.options.maxTokens = some limit →
      s.tokenCount + 1 ≤ limit) :
    ∃ s', advance s = .ok () s' ∧ s'.current = token ∧ s'.upcoming = upcoming ∧
      s'.options = s.options ∧ s'.tokenCount ≤ s.tokenCount + 1 := by
  by_cases ends : token.lexeme = .eof
  · have moved := advance_eq_of_advanced (.ended ahead ends)
    exact ⟨_, moved, rfl, rfl, rfl, Nat.le_succ _⟩
  · have moved := advance_eq_of_advanced (.counted ahead ends (few ends))
    exact ⟨_, moved, rfl, rfl, rfl, Nat.le_refl _⟩

theorem advance_counts {s s' : State} (moved : advance s = .ok () s')
    (more : s'.current.lexeme ≠ .eof) :
    s'.tokenCount = s.tokenCount + 1 ∧
      ∀ limit, s.options.maxTokens = some limit → s'.tokenCount ≤ limit := by
  have steps := advanced s
  rw [moved] at steps
  cases steps with
  | ended _ ends => exact absurd ends more
  | counted _ _ within => exact ⟨rfl, within⟩

/-- What a stream gives can be moved past, as far as the limit allows. -/
theorem moves_of_gives {ahead : List Lexeme} {s : State} (gives : s.upcoming.Gives ahead)
    (few : ∀ limit, s.options.maxTokens = some limit → s.tokenCount + ahead.length ≤ limit) :
    ∃ s', Moves s (s.current.lexeme :: (ahead ++ [.eof])) s' := by
  induction ahead generalizing s with
  | nil =>
      obtain ⟨⟨tokens, items, none⟩, last, ending, ends⟩ := gives
      obtain rfl : tokens = [] := List.map_eq_nil_iff.mp none
      have next : s.upcoming.next = (.ok last, s.upcoming) := by
        rw [TokenStream.next, items, ← ending]
        rfl
      -- The end is not counted, and can be moved past as often as one likes.
      obtain ⟨s₁, moved, current, same, _⟩ := advance_eq next fun more => absurd ends more
      have stays : s₁.upcoming.next = (.ok last, s.upcoming) := by rw [same, next]
      obtain ⟨s₂, again, _⟩ := advance_eq stays fun more => absurd ends more
      have atEnd : s₁.current.lexeme = .eof := by rw [current, ends]
      have onward := Moves.of_advance atEnd again
      exact ⟨s₂, .step moved onward⟩
  | cons found rest ih =>
      obtain ⟨⟨tokens, items, same⟩, ending⟩ := gives
      cases tokens with
      | nil => cases same
      | cons token others =>
          obtain ⟨rfl, behind⟩ := List.cons.inj same
          have next : s.upcoming.next =
              (.ok token, { s.upcoming with items := others.map .ok }) := by
            rw [TokenStream.next, items]
            rfl
          obtain ⟨s₁, moved, rfl, left, options, count⟩ := advance_eq next fun _ limit limited => by
            have enough := few limit limited
            simp only [List.length_cons] at enough
            omega
          have gives₁ : s₁.upcoming.Gives rest := by
            rw [left]
            exact ⟨⟨others, rfl, behind⟩, ending⟩
          obtain ⟨s', onward⟩ := ih gives₁ fun limit limited => by
            rw [options] at limited
            have enough := few limit limited
            simp only [List.length_cons] at enough
            omega
          exact ⟨s', .step moved onward⟩

/-- What was moved past up to the end is what the stream gives. -/
theorem gives_of_moves {ahead : List Lexeme} {s s' : State} {first : Lexeme} (sane : s.Sane)
    (spelled : AllSpelled ahead) (moves : Moves s (first :: (ahead ++ [.eof])) s') :
    s.upcoming.Gives ahead := by
  induction ahead generalizing s first with
  | nil =>
      cases moves with
      | @step _ s₁ _ _ moved onward =>
          have ends : s₁.current.lexeme = .eof := onward.head
          obtain ⟨_, next⟩ := advance_ok moved
          cases items : s.upcoming.items with
          | nil =>
              rw [TokenStream.next, items] at next
              exact ⟨⟨[], items, rfl⟩, s₁.current, (Prod.mk.inj next).1.symm, ends⟩
          | cons item rest =>
              rw [TokenStream.next, items] at next
              have member : .ok s₁.current ∈ s.upcoming.items := by
                rw [items, (Prod.mk.inj next).1]
                exact List.mem_cons_self
              exact absurd ends (sane.stream.goesOn _ member)
  | cons found rest ih =>
      cases moves with
      | @step _ s₁ _ _ moved onward =>
          obtain ⟨isSpelled, behind⟩ := allSpelled_cons.mp spelled
          have more : s₁.current.lexeme ≠ .eof := by
            rw [onward.head]
            exact Lexeme.ne_eof isSpelled
          obtain ⟨_, next⟩ := advance_ok moved
          have left := ih (advance_sane sane moved).1 behind onward
          cases items : s.upcoming.items with
          | nil =>
              rw [TokenStream.next, items] at next
              exact absurd (sane.stream.ends _ (Prod.mk.inj next).1.symm) more
          | cons item others =>
              rw [TokenStream.next, items] at next
              obtain ⟨same, upcoming⟩ := Prod.mk.inj next
              have whole : s.upcoming = s₁.upcoming.cons (.ok s₁.current) := by
                rw [upcoming, TokenStream.cons, same, ← items]
              rw [whole, ← onward.head]
              exact left.cons s₁.current

theorem filter_spelled {lexemes : List Lexeme} (spelled : AllSpelled lexemes) :
    (lexemes.filter fun found => !found.isComment) = lexemes := by
  rw [List.filter_eq_self]
  intro found member
  have isSpelled := List.all_eq_true.mp spelled found member
  cases found with
  | comment text => cases isSpelled
  | _ => rfl

section
variable {source : Source} {options : Options} {lexemes : List Lexeme}

/-- The lexemes of a source, comments apart, lie ahead of the state at its start. -/
theorem moves_ofLexed {all : List Lexeme} (lexed : Lexed source.chars all)
    (kept : lexemes = all.filter fun found => !found.isComment)
    (few : ∀ limit, options.maxTokens = some limit → lexemes.length ≤ limit) :
    ∃ s', Moves (State.ofSource source options) (.sof :: (lexemes ++ [.eof])) s' := by
  have gives : (State.ofSource source options).upcoming.Gives lexemes := by
    refine TokenStream.gives_significant.mpr ⟨all, ?_, kept⟩
    exact (TokenStream.gives_ofSource source all).mpr lexed
  refine moves_of_gives gives ?_
  intro limit limited
  have enough := few limit limited
  show 0 + lexemes.length ≤ limit
  omega

theorem moves_ofSource (lexed : Lexed source.chars lexemes) (spelled : AllSpelled lexemes)
    (few : ∀ limit, options.maxTokens = some limit → lexemes.length ≤ limit) :
    ∃ s', Moves (State.ofSource source options) (.sof :: (lexemes ++ [.eof])) s' :=
  moves_ofLexed lexed (filter_spelled spelled).symm few

theorem few_of_moves {limit : Nat} {ahead : List Lexeme} {s s' : State} {first : Lexeme}
    (limited : s.options.maxTokens = some limit) (within : s.tokenCount ≤ limit)
    (spelled : AllSpelled ahead) (moves : Moves s (first :: (ahead ++ [.eof])) s') :
    s.tokenCount + ahead.length ≤ limit := by
  induction ahead generalizing s first with
  | nil => exact within
  | cons found rest ih =>
      obtain ⟨isSpelled, behind⟩ := allSpelled_cons.mp spelled
      cases moves with
      | step moved onward =>
          have more := Lexeme.ne_eof isSpelled
          rw [← onward.head] at more
          obtain ⟨counted, enough⟩ := advance_counts moved more
          have limited₁ := limited
          rw [← (advance_ok moved).1] at limited₁
          have left := ih limited₁ (enough limit limited) behind onward
          rw [counted] at left
          rw [List.length_cons]
          omega

theorem few_ofSource {s' : State} (spelled : AllSpelled lexemes)
    (moves : Moves (State.ofSource source options) (.sof :: (lexemes ++ [.eof])) s') (limit : Nat)
    (limited : options.maxTokens = some limit) : lexemes.length ≤ limit := by
  have few : 0 + lexemes.length ≤ limit :=
    few_of_moves limited (Nat.zero_le limit) spelled moves
  omega

theorem lexed_of_moves {s' : State} (spelled : AllSpelled lexemes)
    (moves : Moves (State.ofSource source options) (.sof :: (lexemes ++ [.eof])) s') :
    ∃ all, Lexed source.chars all ∧ lexemes = all.filter fun found => !found.isComment := by
  have gives := gives_of_moves (sane_ofSource source options) spelled moves
  obtain ⟨all, whole, same⟩ := TokenStream.gives_significant.mp gives
  exact ⟨all, (TokenStream.gives_ofSource source all).mp whole, same⟩

end

theorem run_ok {parser : Parser α} {source : Source} {options : Options} {result : α} :
    parser.run source options = .ok result ↔
      ∃ s', parser (State.ofSource source options) = .ok result s' := by
  unfold Parser.run EStateM.run
  cases parser (State.ofSource source options) <;> simp

theorem whole_reads {options : Options} {item : Parser α} {spell : α → List Lexeme} {ok : α → Bool}
    (each : ∀ {s s' : State} {found : α}, s.options = options → item s = .ok found s' →
      Moves s (spell found) s' ∧ ok found = true)
    {s s' : State} {found : α} (here : s.options = options) (parsed : whole item s = .ok found s') :
    Moves s (.sof :: (spell found ++ [.eof])) s' := by
  obtain ⟨_, s₁, opened, parsed⟩ := bind_ok parsed
  obtain ⟨inner, s₂, read, parsed⟩ := bind_ok parsed
  obtain ⟨_, s₃, closed, parsed⟩ := bind_ok parsed
  cases parsed
  have opens := fixes_sof.expect_ok opened
  have closes := fixes_eof.expect_ok closed
  obtain ⟨moves, _⟩ := each (opens.options.trans here) read
  exact opens.append (moves.append closes)

/-- What it means for a source that a production was all of it. -/
theorem whole_parse_ok {source : Source} {options : Options} {item : Parser α}
    {spell : α → List Lexeme} {ok : α → Bool} (each : Reads options item spell ok)
    (spelled : ∀ found, AllSpelled (spell found)) {found : α}
    (parsed : (whole item).run source options = .ok found) :
    ok found = true ∧ ∃ all, Lexed source.chars all ∧
      (spell found = all.filter fun found => !found.isComment) ∧
      ∀ limit, options.maxTokens = some limit → (spell found).length ≤ limit := by
  obtain ⟨s', read⟩ := run_ok.mp parsed
  have moves := whole_reads each rfl read
  obtain ⟨all, lexed, kept⟩ := lexed_of_moves (spelled found) moves
  refine ⟨?_, all, lexed, kept, few_ofSource (spelled found) moves⟩
  obtain ⟨_, s₁, opened, read⟩ := bind_ok read
  obtain ⟨inner, s₂, one, read⟩ := bind_ok read
  obtain ⟨_, s₃, closed, read⟩ := bind_ok read
  cases read
  exact (each (fixes_sof.expect_ok opened).options one).2

theorem whole_finds {options : Options} {levels : Nat} {item : Parser α}
    {spell : α → List Lexeme} {ok : α → Bool} {follow : α → Lexeme → Prop}
    (each : Finds options levels item spell ok follow) {node : α} (isOk : ok node = true)
    (follows : follow node .eof) {s s' : State} (ready : s.Ready options levels)
    (moves : Moves s (.sof :: (spell node ++ [.eof])) s') : whole item s = .ok node s' := by
  obtain ⟨s₁, opens, onward⟩ := moves.uncons
  obtain ⟨s₂, inside, closes⟩ := onward.split
  rw [← closes.head] at follows
  have found := each (opens.ready ready) isOk inside follows
  unfold whole
  rw [bind_eq (fixes_sof.expect_eq opens), bind_eq found, bind_eq (fixes_eof.expect_eq closes)]
  rfl

end Parser

end GraphQL
