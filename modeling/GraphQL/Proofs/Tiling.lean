import GraphQL.Proofs.Arena

/-!
A source that is read to its end lies between the tokens and in them: each token shows in its
own slice which one it is, only ignored characters stand in the gaps, and gaps and slices
together are the whole text.
-/

namespace GraphQL

/-- Gaps and slices put one behind the other, from an offset to the end of the last token. -/
def Source.retell (source : Source) : (offset : Nat) → List Token → Option String
  | _, [] => some ""
  | offset, token :: rest => do
      let gap ← source.slice? offset token.start
      let slice ← source.slice? token.start token.stop
      return gap ++ slice ++ (← source.retell token.stop rest)

/-- Where the last token ends, or else the offset in front of them all. -/
def Token.lastStop : (offset : Nat) → List Token → Nat
  | offset, [] => offset
  | _, token :: rest => lastStop token.stop rest

/-- A token can be told from its slice, which is empty only at the end of the text. A comment
goes to the end of its line. -/
structure Token.Tells (source : Source) (token : Token) : Prop where
  slice : ∃ slice, source.slice? token.start token.stop = some (String.ofList slice) ∧
    token.lexeme.IsReadFrom slice ∧ Lexical.lexeme slice = .done slice.length token.lexeme
  nonempty : token.lexeme ≠ .eof → token.start < token.stop
  ends : token.lexeme.isComment = true → ∃ before after,
    splitBytes? token.stop source.chars = some (before, after) ∧
      ∀ c ∈ after.head?, isLineBreak c = true

/-- The second token was read behind the first one, at `place`, over a gap of ignored characters. -/
structure Token.Follows (source : Source) (place : Nat) (second first : Token) : Prop where
  prev : second.prev = some place
  ordered : first.stop ≤ second.start
  gap : ∃ gap, source.slice? first.stop second.start = some (String.ofList gap) ∧
    ∀ c ∈ gap, Scan.isIgnored c = true

structure Token.IsFinal (source : Source) (final : Token) (tokens : List Token) : Prop where
  start : final.start = byteLength source.chars
  stop : final.stop = byteLength source.chars
  last : ∃ others, tokens = others ++ [final] ∧ ∀ token ∈ others, token.lexeme ≠ .eof

/-- The tokens that cover a text from its start on leave nothing of it out. -/
structure Source.Covered (source : Source) (text : String) (tokens : List Token) : Prop where
  first : ∃ others, tokens = .sof :: others ∧ ∀ token ∈ others, token.lexeme ≠ .sof
  each : ∀ token ∈ tokens, token.lexeme ≠ .sof → token.Tells source
  neighbours : ∀ place first second, tokens[place]? = some first →
    tokens[place + 1]? = some second → second.Follows source place first
  whole : source.retell 0 tokens = some text

namespace Token

theorem lastStop_of_last {tokens : List Token} {last : Token} (offset : Nat)
    (isLast : tokens[tokens.length - 1]? = some last) : lastStop offset tokens = last.stop := by
  induction tokens generalizing offset with
  | nil => cases isLast
  | cons token rest ih =>
      cases rest with
      | nil =>
          cases isLast
          rfl
      | cons second others => exact ih token.stop isLast

theorem lastStop_append (offset : Nat) (tokens : List Token) (token : Token) :
    lastStop offset (tokens ++ [token]) = token.stop := by
  induction tokens generalizing offset with
  | nil => rfl
  | cons first rest ih => exact ih first.stop

end Token

theorem Source.retell_append {source : Source} {token : Token} {gap slice : String}
    {tokens : List Token} {offset : Nat} {told : String}
    (front : source.retell offset tokens = some told)
    (between : source.slice? (Token.lastStop offset tokens) token.start = some gap)
    (taken : source.slice? token.start token.stop = some slice) :
    source.retell offset (tokens ++ [token]) = some (told ++ gap ++ slice) := by
  induction tokens generalizing offset told with
  | nil =>
      obtain rfl : "" = told := Option.some.inj front
      simp only [List.nil_append, retell, Token.lastStop] at between ⊢
      simp [between, taken]
  | cons first rest ih =>
      simp only [retell, Option.bind_eq_bind, Option.bind_eq_some_iff] at front
      obtain ⟨before, gapped, inner, sliced, left, behind, same⟩ := front
      obtain rfl : before ++ inner ++ left = told := Option.some.inj same
      have onward := ih behind between
      simp [retell, gapped, sliced, onward, String.append_assoc]

theorem neighbours_append {related : Nat → Token → Token → Prop} {tokens : List Token}
    {token : Token}
    (earlier : ∀ place first second, tokens[place]? = some first →
      tokens[place + 1]? = some second → related place first second)
    (latest : ∀ last, tokens[tokens.length - 1]? = some last →
      related (tokens.length - 1) last token)
    {place : Nat} {first second : Token} (here : (tokens ++ [token])[place]? = some first)
    (next : (tokens ++ [token])[place + 1]? = some second) : related place first second := by
  by_cases inside : place + 1 < tokens.length
  · rw [List.getElem?_append_left (by omega)] at here
    rw [List.getElem?_append_left inside] at next
    exact earlier place first second here next
  · rw [List.getElem?_append_right (by omega)] at next
    obtain ⟨onlyOne, same⟩ := List.getElem?_eq_some_iff.mp next
    rw [List.length_singleton] at onlyOne
    obtain rfl : token = second := by simpa using same
    obtain rfl : place = tokens.length - 1 := by omega
    rw [List.getElem?_append_left (by omega)] at here
    exact latest first here

theorem Token.Covers.tells {source : Source} {token : Token} {before slice after : List Char}
    (whole : source.chars = before ++ slice ++ after) (covers : token.Covers before slice after) :
    token.Tells source where
  slice := ⟨slice, covers.slice_eq whole, covers.sliced.form, covers.sliced.alone⟩
  nonempty more := by
    obtain ⟨c, others, some', _⟩ := covers.sliced.begins more
    have positive := byteLength_pos (some' ▸ List.cons_ne_nil c others)
    rw [covers.start, covers.stop, byteLength_append]
    omega
  ends isComment := by
    refine ⟨before ++ slice, after, ?_, fun c member => ?_⟩
    · rw [covers.stop, whole, splitBytes_append]
    · simpa using covers.sliced.ends isComment c member

theorem Token.Covers.follows {source : Source} {token last : Token} {place : Nat}
    {behind gap slice after : List Char} (whole : source.chars = behind ++ gap ++ slice ++ after)
    (ignored : ∀ c ∈ gap, Scan.isIgnored c = true) (prev : token.prev = some place)
    (stop : last.stop = byteLength behind) (covers : token.Covers (behind ++ gap) slice after) :
    token.Follows source place last where
  prev := prev
  ordered := by
    rw [stop, covers.start, byteLength_append]
    exact Nat.le_add_right _ _
  gap := by
    rw [stop]
    exact ⟨gap, covers.gap_eq whole, ignored⟩

theorem Token.Covers.nothing {token : Token} {before slice after : List Char}
    (covers : token.Covers before slice after) (ends : token.lexeme = .eof) :
    slice = [] ∧ after = [] := by
  have outcome := covers.read
  rw [ends] at outcome
  refine List.append_eq_nil_iff.mp ?_
  cases ahead : slice ++ after with
  | nil => rfl
  | cons c rest =>
      rw [ahead] at outcome
      rcases (Lexical.lexeme_ok outcome).2 with sort | sort <;> cases sort

theorem Token.Covers.ne_sof {token : Token} {before slice after : List Char}
    (covers : token.Covers before slice after) : token.lexeme ≠ .sof := by
  intro isSof
  have form := covers.sliced.form
  have alone := covers.sliced.alone
  rw [isSof] at form alone
  rw [show slice = [] from form] at alone
  cases alone

theorem Source.covered_sof (source : Source) : source.Covered "" [.sof] where
  first := ⟨[], rfl, by rintro _ ⟨⟩⟩
  each := by
    intro token member more
    rw [List.mem_singleton.mp member] at more
    exact absurd rfl more
  neighbours := by
    rintro place first second _ ⟨⟩
  whole := by
    simp [Source.retell, Token.sof, source.slice_start]

/-- A token read right behind those that cover a text covers the text over its gap. -/
theorem Source.Covered.append {source : Source} {behind gap slice after : List Char}
    {tokens : List Token} {token : Token} (covered : source.Covered (String.ofList behind) tokens)
    (stop : Token.lastStop 0 tokens = byteLength behind)
    (ignored : ∀ c ∈ gap, Scan.isIgnored c = true)
    (whole : source.chars = behind ++ gap ++ slice ++ after)
    (covers : token.Covers (behind ++ gap) slice after)
    (prev : token.prev = some (tokens.length - 1)) :
    source.Covered (String.ofList (behind ++ gap ++ slice)) (tokens ++ [token]) where
  first := by
    obtain ⟨others, rfl, each⟩ := covered.first
    refine ⟨others ++ [token], rfl, fun other member => ?_⟩
    rcases List.mem_append.mp member with old | new
    · exact each other old
    · rw [List.mem_singleton.mp new]
      exact covers.ne_sof
  each := by
    intro other member more
    rcases List.mem_append.mp member with old | new
    · exact covered.each other old more
    · rw [List.mem_singleton.mp new]
      exact covers.tells whole
  neighbours := by
    intro place first second here next
    refine neighbours_append covered.neighbours (fun last isLast => ?_) here next
    rw [Token.lastStop_of_last 0 isLast] at stop
    exact covers.follows whole ignored prev stop
  whole := by
    have between : source.slice? (Token.lastStop 0 tokens) token.start =
        some (String.ofList gap) := by
      rw [stop]
      exact covers.gap_eq whole
    rw [Source.retell_append covered.whole between (covers.slice_eq whole), String.ofList_append,
      String.ofList_append]

namespace Grown

variable {source : Source} {behind : List Char} {tokens : List Token}

theorem covered (grown : Grown source true behind tokens) :
    source.Covered (String.ofList behind) tokens ∧
      Token.lastStop 0 tokens = byteLength behind := by
  generalize isClean : true = clean at grown
  induction grown with
  | start => exact ⟨source.covered_sof, rfl⟩
  | token _ _ ignored whole covers prev ih =>
      obtain ⟨covered, stop⟩ := ih isClean
      refine ⟨covered.append stop ignored whole covers prev, ?_⟩
      rw [Token.lastStop_append, covers.stop]
  | fault => cases isClean

theorem final {clean : Bool} (grown : Grown source clean behind tokens) {final : Token}
    (member : final ∈ tokens) (ends : final.lexeme = .eof) : final.IsFinal source tokens := by
  induction grown with
  | start =>
      rw [List.mem_singleton.mp member] at ends
      cases ends
  | @token clean behind gap slice after tokens token _ goesOn _ whole covers _ ih =>
      rcases List.mem_append.mp member with old | new
      · exact absurd ends (goesOn final old)
      obtain rfl := List.mem_singleton.mp new
      obtain ⟨rfl, rfl⟩ := covers.nothing ends
      refine ⟨?_, ?_, tokens, rfl, goesOn⟩
      · rw [covers.start, whole, List.append_nil, List.append_nil]
      · rw [covers.stop, whole, List.append_nil, List.append_nil]
  | fault _ _ ih => exact ih member

end Grown

/-- The tokens of a source up to its end tile it. -/
structure Source.Tiled (source : Source) (tokens : List Token) : Prop where
  covered : source.Covered source.body tokens
  final : ∃ final : Token, final.lexeme = .eof ∧ final.IsFinal source tokens

namespace Lexer

variable {source : Source} {lexer : Lexer}

theorem Reached.whole (reached : lexer.Reached source true)
    (ended : ∃ token ∈ lexer.tokens, token.lexeme = .eof) :
    Grown source true source.chars lexer.tokens.toList := by
  obtain ⟨_, behind, stands, grown⟩ := reached.holds
  obtain ⟨_, stop⟩ := grown.covered
  obtain ⟨final, member, ends⟩ := ended
  have isFinal := grown.final (Array.mem_toList_iff.mpr member) ends
  obtain ⟨others, split, _⟩ := isFinal.last
  rw [split, Token.lastStop_append, isFinal.stop, stands.whole, byteLength_append] at stop
  have nothing : lexer.scan.rest = [] := by
    by_cases more : lexer.scan.rest = []
    · exact more
    · have positive := byteLength_pos more
      omega
  rw [stands.whole, nothing, List.append_nil]
  exact grown

theorem Reached.tiled (reached : lexer.Reached source true)
    (ended : ∃ token ∈ lexer.tokens, token.lexeme = .eof) : source.Tiled lexer.tokens.toList := by
  have grown := reached.whole ended
  obtain ⟨covered, _⟩ := grown.covered
  obtain ⟨final, member, ends⟩ := ended
  rw [Source.chars, String.ofList_toList] at covered
  exact ⟨covered, final, ends, grown.final (Array.mem_toList_iff.mpr member) ends⟩

theorem finish_eq_run {steps : Nat} {final : Lexer}
    (finished : lexer.finish steps = (none, final)) :
    ∃ calls answers, lexer.run calls = (answers, final) ∧
      ∀ answer ∈ answers, answer.isOk = true := by
  induction steps generalizing lexer with
  | zero =>
      cases finished
      exact ⟨[], [], rfl, by rintro _ ⟨⟩⟩
  | succ steps ih =>
      unfold finish at finished
      cases moved : lexer.advance with
      | mk answer next =>
      rw [moved] at finished
      cases answer with
      | error error => cases finished
      | ok token =>
          have first : lexer.call .advance = (.ok token, next) := moved
          dsimp only at finished
          split at finished
          · cases finished
            refine ⟨[.advance], [.ok token], by simp only [run, first], ?_⟩
            intro answer member
            rw [List.mem_singleton.mp member]
            rfl
          · obtain ⟨calls, answers, ran, each⟩ := ih finished
            refine ⟨.advance :: calls, .ok token :: answers, by simp only [run, first, ran], ?_⟩
            intro answer member
            rcases List.mem_cons.mp member with rfl | later
            · rfl
            · exact each answer later

theorem reached_of_run {calls : List Call} {answers : List (Except SyntaxError Token)}
    (ran : (ofSource source).run calls = (answers, lexer))
    (clean : ∀ answer ∈ answers, answer.isOk = true) : lexer.Reached source true := by
  have reached := run_reached (reached_ofSource source) calls
  rwa [ran, Bool.true_and, List.all_eq_true.mpr clean] at reached

theorem reached_of_lex (finished : source.lex = (none, lexer)) : lexer.Reached source true := by
  obtain ⟨calls, answers, ran, clean⟩ := finish_eq_run finished
  exact reached_of_run ran clean

/-- Lexing does not just stop: what it read ends with the last token. -/
theorem ended_of_lex (finished : source.lex = (none, lexer)) :
    ∃ token ∈ lexer.tokens, token.lexeme = .eof := by
  obtain ⟨tokens, last, reads, all⟩ := Source.readsTo_of_lex finished
  exact ⟨last, Array.mem_toList_iff.mp (by simp [all]), reads.ends⟩

theorem lex_tiled (finished : source.lex = (none, lexer)) : source.Tiled lexer.tokens.toList :=
  (reached_of_lex finished).tiled (ended_of_lex finished)

end Lexer

/-- Whatever calls read a source to its end without an error, its tokens tile it. Lexing all
of it is one such way. -/
theorem Source.tiled_of_ended (source : Source) :
    (∀ (calls : List Lexer.Call) (answers : List (Except SyntaxError Token)) (lexer : Lexer),
      (Lexer.ofSource source).run calls = (answers, lexer) →
      (∀ answer ∈ answers, answer.isOk = true) →
      (∃ token ∈ lexer.tokens, token.lexeme = .eof) → source.Tiled lexer.tokens.toList) ∧
    (∀ lexer : Lexer, source.lex = (none, lexer) → source.Tiled lexer.tokens.toList) :=
  ⟨fun _ _ _ ran clean ended => (Lexer.reached_of_run ran clean).tiled ended,
    fun _ finished => Lexer.lex_tiled finished⟩

/-- A text with a comment, a string and characters of several bytes, read to its end by advances
with a look ahead between them, and at once. -/
theorem Source.tiled_commented :
    let source := Source.ofBody "\x7b a(b: \"→\") \x7d # ü"
    let calls := .lookahead :: List.replicate 9 .advance
    ((Lexer.ofSource source).run calls).1.all Except.isOk = true ∧
      source.Tiled ((Lexer.ofSource source).run calls).2.tokens.toList ∧
      source.lex.1 = none ∧ source.Tiled source.lex.2.tokens.toList := by
  intro source calls
  have clean : ((Lexer.ofSource source).run calls).1.all Except.isOk = true := by decide +kernel
  have ended : ((Lexer.ofSource source).run calls).2.tokens.any (·.lexeme = .eof) = true := by
    decide +kernel
  have finished : source.lex.1 = none := by decide +kernel
  refine ⟨clean, ?_, finished, ?_⟩
  · obtain ⟨token, member, ends⟩ := Array.any_eq_true'.mp ended
    exact (Source.tiled_of_ended source).1 calls _ _ (Prod.eta _).symm (List.all_eq_true.mp clean)
      ⟨token, member, of_decide_eq_true ends⟩
  · refine (Source.tiled_of_ended source).2 _ ?_
    rw [← finished]

end GraphQL
