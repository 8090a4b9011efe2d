import GraphQL.Proofs.Parser.Reads.Loops

/-!
Items that lie ahead are read as long as each is followed by a lexeme that it can end in front
of. Loops end because a state has only so many tokens ahead.
-/

namespace GraphQL

/-- A stream that ends at the end of its text, if at all, and not before. -/
structure TokenStream.Sane (stream : TokenStream) : Prop where
  goesOn : ∀ token, .ok token ∈ stream.items → token.lexeme ≠ .eof
  ends : ∀ token, stream.ending = .ok token → token.lexeme = .eof

namespace Parser

/-- A state whose stream ends where its text does, and that stands at the end only there. -/
structure State.Sane (s : State) : Prop where
  stream : s.upcoming.Sane
  ended : s.current.lexeme = .eof → s.upcoming.items = []

/-- A state to read from as under some options, in which so many levels may still open. Its own
options may have other limits. -/
structure State.Ready (s : State) (options : Options) (levels : Nat) : Prop where
  noLocation : s.options.noLocation = options.noLocation
  fragmentVariables : s.options.fragmentVariables = options.fragmentVariables
  sane : s.Sane
  room : s.depth + levels ≤ s.options.maxNestingDepth

def State.remaining (s : State) : Nat :=
  if s.current.lexeme = .eof then 0 else s.upcoming.items.length + 1

section
variable {s s' : State}

theorem advance_sane (sane : s.Sane) (moved : advance s = .ok () s') :
    s'.Sane ∧ s'.remaining ≤ s.remaining ∧
      (s.current.lexeme ≠ .eof → s'.remaining < s.remaining) := by
  obtain ⟨_, ahead⟩ := advance_ok moved
  cases items : s.upcoming.items with
  | nil =>
      simp only [TokenStream.next, items, Prod.mk.injEq] at ahead
      obtain ⟨ending, same⟩ := ahead
      have ends : s'.current.lexeme = .eof := sane.stream.ends _ ending.symm
      refine ⟨⟨same ▸ sane.stream, fun _ => same ▸ items⟩, ?_, ?_⟩
      · simp [State.remaining, ends]
      · intro goesOn
        simp [State.remaining, ends, goesOn]
  | cons item rest =>
      simp only [TokenStream.next, items, Prod.mk.injEq] at ahead
      obtain ⟨first, same⟩ := ahead
      have goesOn : s'.current.lexeme ≠ .eof :=
        sane.stream.goesOn _ (by rw [items, first]; exact List.mem_cons_self)
      have before : s.current.lexeme ≠ .eof := by
        intro ends
        rw [sane.ended ends] at items
        cases items
      have shorter : s'.remaining < s.remaining := by
        simp [State.remaining, goesOn, before, same, items]
      refine ⟨⟨⟨fun token member => ?_, fun token ending => ?_⟩, fun ends => absurd ends goesOn⟩,
        Nat.le_of_lt shorter, fun _ => shorter⟩
      · rw [same] at member
        exact sane.stream.goesOn token (by rw [items]; exact List.mem_cons_of_mem item member)
      · rw [same] at ending
        exact sane.stream.ends token ending

variable {lexemes : List Lexeme}

theorem Moves.sane (moves : Moves s lexemes s') (sane : s.Sane) :
    s'.Sane ∧ s'.remaining ≤ s.remaining := by
  induction moves with
  | stay => exact ⟨sane, Nat.le_refl _⟩
  | step moved _ ih =>
      obtain ⟨next, bound, _⟩ := advance_sane sane moved
      obtain ⟨last, further⟩ := ih next
      exact ⟨last, Nat.le_trans further bound⟩

theorem Moves.ready {options : Options} {levels : Nat} (moves : Moves s lexemes s')
    (ready : s.Ready options levels) : s'.Ready options levels where
  noLocation := by rw [moves.options, ready.noLocation]
  fragmentVariables := by rw [moves.options, ready.fragmentVariables]
  sane := (moves.sane ready.sane).1
  room := by
    rw [moves.depth, moves.options]
    exact ready.room

theorem State.Ready.opened {options : Options} {levels : Nat}
    (ready : s.Ready options (levels + 1)) : s.opened.Ready options levels where
  noLocation := ready.noLocation
  fragmentVariables := ready.fragmentVariables
  sane := ⟨ready.sane.stream, ready.sane.ended⟩
  room := by
    show s.depth + 1 + levels ≤ s.options.maxNestingDepth
    have room := ready.room
    omega

theorem State.Ready.free {options : Options} {levels : Nat}
    (ready : s.Ready options (levels + 1)) : s.depth < s.options.maxNestingDepth := by
  have room := ready.room
  omega

theorem Moves.remaining_lt {found : Lexeme} (moves : Moves s (found :: lexemes) s') (sane : s.Sane)
    (goesOn : found ≠ .eof) : s'.remaining < s.remaining := by
  cases moves with
  | step moved onward =>
      obtain ⟨next, _, shorter⟩ := advance_sane sane moved
      exact Nat.lt_of_le_of_lt (onward.sane next).2 (shorter goesOn)

theorem remaining_lt_rounds (s : State) : s.remaining < s.upcoming.items.length + 2 := by
  unfold State.remaining
  split <;> omega

end

/-- Under `options`, a parser finds a node that satisfies `ok` where the node's lexemes lie
ahead, in front of a lexeme that the node can end in front of, and as many levels as there may be
inside it can still open. -/
def Finds (options : Options) (levels : Nat) (parser : Parser α) (spell : α → List Lexeme)
    (ok : α → Bool) (follow : α → Lexeme → Prop) : Prop :=
  ∀ {s s' : State} {node : α}, s.Ready options levels → ok node = true →
    Moves s (spell node) s' → follow node s'.current.lexeme → parser s = .ok node s'

theorem nested_finds {options : Options} {levels : Nat} {body : Parser α} {spell : α → List Lexeme}
    {ok : α → Bool} {follow : α → Lexeme → Prop}
    (inside : Finds options levels body spell ok follow) :
    Finds options (levels + 1) (nested body) spell ok follow := by
  intro s s' node ready isOk moves follows
  exact nested_eq ready.free (inside ready.opened isOk moves.opened follows)

def Followed (follow : α → Lexeme → Prop) (spell : α → List Lexeme) (closing : Lexeme) :
    List α → Prop
  | [] => True
  | item :: rest => (∀ next ∈ (rest.flatMap spell ++ [closing]).head?, follow item next) ∧
      Followed follow spell closing rest

def Begins (spell : α → List Lexeme) (ok : α → Bool) (sort : Lexeme → Prop) : Prop :=
  ∀ item, ok item = true → ∃ first rest, spell item = first :: rest ∧ sort first

theorem Begins.head {spell : α → List Lexeme} {ok : α → Bool} {sort : Lexeme → Prop} {s s' : State}
    {item : α} (begins : Begins spell ok sort) (isOk : ok item = true)
    (moves : Moves s (spell item) s') : sort s.current.lexeme := by
  obtain ⟨head, rest, spelled, isSort⟩ := begins item isOk
  rw [spelled] at moves
  rwa [moves.head]

theorem Begins.head_append {spell : α → List Lexeme} {ok : α → Bool} {sort : Lexeme → Prop}
    {s s' : State} {item : α} (begins : Begins spell ok sort) (isOk : ok item = true)
    {rest : List Lexeme} (moves : Moves s (spell item ++ rest) s') : sort s.current.lexeme := by
  obtain ⟨s₁, starts, _⟩ := moves.split
  exact begins.head isOk starts

theorem Followed.listed {follow : α → Lexeme → Prop} {spell : α → List Lexeme} {closing : Lexeme}
    {items : List α} {ok : α → Bool} (followed : Followed follow spell closing items)
    (begins : ∀ item, ok item = true → ∃ first rest, spell item = first :: rest)
    (allOk : items.all ok = true) (some' : items ≠ []) :
    Listed (fun item used next => used = spell item ∧ ok item = true ∧ follow item next) closing
      items (items.flatMap spell ++ [closing]) := by
  induction items with
  | nil => exact absurd rfl some'
  | cons first rest ih =>
      simp only [List.all_cons, Bool.and_eq_true] at allOk
      obtain ⟨fits, behind⟩ := followed
      cases rest with
      | nil =>
          simp only [List.flatMap_cons, List.flatMap_nil, List.append_nil]
          exact .last ⟨rfl, allOk.1, fits closing rfl⟩
      | cons second others =>
          have secondOk := allOk.2
          simp only [List.all_cons, Bool.and_eq_true] at secondOk
          obtain ⟨next, more, spelled⟩ := begins second secondOk.1
          have listed := ih behind allOk.2 (List.cons_ne_nil _ _)
          rw [List.flatMap_cons, List.append_assoc]
          have opens : (second :: others).flatMap spell ++ [closing] =
              next :: (more ++ (others.flatMap spell ++ [closing])) := by
            simp [spelled]
          rw [opens] at listed fits ⊢
          exact .more ⟨rfl, allOk.1, fits next rfl⟩ listed

/-- Items that fit are found up to the lexeme that closes their list. -/
theorem itemsUntil_of_listed {options : Options} {levels : Nat} {item : Parser α}
    {close : TokenKind} {closing : Lexeme} {fits : α → List Lexeme → Lexeme → Prop}
    (fixes : Fixes close closing)
    (each : ∀ {s s' : State} {found : α} {used : List Lexeme}, s.Ready options levels →
      fits found used s'.current.lexeme → Moves s used s' → item s = .ok found s')
    (opens : ∀ {found : α} {used : List Lexeme} {next : Lexeme}, fits found used next →
      ∃ first rest, used = first :: rest ∧ first ≠ closing ∧ first ≠ .eof)
    {items : List α} {used : List Lexeme} (listed : Listed fits closing items used) {s s' : State}
    (ready : s.Ready options levels) (moves : Moves s used s') {rounds : Nat}
    (enough : s.remaining < rounds) : itemsUntil close item rounds s = .ok items s' := by
  induction listed generalizing s rounds with
  | @last found used fit =>
      cases rounds with
      | zero => omega
      | succ rounds =>
          obtain ⟨s₁, starts, closes⟩ := moves.split
          have one : item s = .ok found s₁ := each ready (by rwa [closes.head]) starts
          unfold itemsUntil
          rw [bind_eq one, bind_eq (fixes.accept_true closes)]
          rfl
  | @more found used tail items next fit rest ih =>
      cases rounds with
      | zero => omega
      | succ rounds =>
          obtain ⟨s₁, starts, onward⟩ := moves.split
          have one : item s = .ok found s₁ := each ready (by rwa [onward.head]) starts
          obtain ⟨first, others, rfl, _, goesOn⟩ := opens fit
          have shorter : s₁.remaining < s.remaining := starts.remaining_lt ready.sane goesOn
          have recursion := ih (starts.ready ready) onward (by omega : s₁.remaining < rounds)
          have other : s₁.current.lexeme ≠ closing := by
            obtain ⟨head, more, same, isSort⟩ := rest.begins opens
            rw [onward.head, (List.cons.inj same).1]
            exact isSort.1
          unfold itemsUntil
          rw [bind_eq one, bind_eq (fixes.accept_false other)]
          simp only [Bool.false_eq_true, if_false]
          rw [bind_eq recursion]
          rfl

section
variable {options : Options} {levels : Nat} {item : Parser α} {spell : α → List Lexeme}
  {ok : α → Bool} {sort : Lexeme → Prop} {s s' : State} {items : List α}

section
variable {close : TokenKind} {closing : Lexeme} {follow : α → Lexeme → Prop}
  (each : Finds options levels item spell ok follow) (begins : Begins spell ok sort)
  (apart : ∀ next, sort next → next ≠ closing ∧ next ≠ .eof)
include each begins apart

theorem first_found {first : α} {rest : List Lexeme} (ready : s.Ready options levels)
    (isOk : ok first = true) (moves : Moves s (spell first ++ rest) s')
    (fits : ∀ next ∈ rest.head?, follow first next) (goesOn : rest ≠ []) :
    ∃ s₁, item s = .ok first s₁ ∧ s₁.Ready options levels ∧ s₁.remaining < s.remaining ∧
      Moves s₁ rest s' := by
  obtain ⟨s₁, starts, onward⟩ := moves.split
  obtain ⟨next, more, rfl⟩ := List.exists_cons_of_ne_nil goesOn
  have fit := fits next rfl
  rw [← onward.head] at fit
  obtain ⟨head, others, spelled, isSort⟩ := begins first isOk
  have shorter : s₁.remaining < s.remaining := by
    rw [spelled] at starts
    exact starts.remaining_lt ready.sane (apart head isSort).2
  exact ⟨s₁, each ready isOk starts fit, starts.ready ready, shorter, onward⟩

theorem itemsUntil_finds (fixes : Fixes close closing) {rounds : Nat}
    (ready : s.Ready options levels) (allOk : items.all ok = true)
    (some' : items ≠ []) (moves : Moves s (items.flatMap spell ++ [closing]) s')
    (followed : Followed follow spell closing items) (enough : s.remaining < rounds) :
    itemsUntil close item rounds s = .ok items s' := by
  have listed := followed.listed (fun item isOk => (begins item isOk).imp fun _ => .imp fun _ =>
    And.left) allOk some'
  refine itemsUntil_of_listed fixes ?_ ?_ listed ready moves enough
  · rintro s s' item used ready ⟨rfl, isOk, fit⟩ moves
    exact each ready isOk moves fit
  · rintro item used next ⟨rfl, isOk, _⟩
    obtain ⟨head, more, spelled, isSort⟩ := begins item isOk
    exact ⟨head, more, spelled, apart head isSort⟩

theorem anyUntil_finds (fixes : Fixes close closing) {rounds : Nat} (ready : s.Ready options levels)
    (allOk : items.all ok = true)
    (moves : Moves s (items.flatMap spell ++ [closing]) s')
    (followed : Followed follow spell closing items) (enough : s.remaining < rounds) :
    anyUntil close item rounds s = .ok items s' := by
  induction items generalizing s rounds with
  | nil =>
      cases rounds with
      | zero => omega
      | succ rounds =>
          unfold anyUntil
          rw [bind_eq (fixes.accept_true moves)]
          rfl
  | cons first rest ih =>
      cases rounds with
      | zero => omega
      | succ rounds =>
          simp only [List.all_cons, Bool.and_eq_true] at allOk
          rw [List.flatMap_cons, List.append_assoc] at moves
          have opens := begins.head_append allOk.1 moves
          obtain ⟨s₁, found, ready₁, shorter, onward⟩ :=
            first_found each begins apart ready allOk.1 moves followed.1 (by simp)
          have recursion :=
            ih ready₁ allOk.2 onward followed.2 (by omega : s₁.remaining < rounds)
          unfold anyUntil
          rw [bind_eq (fixes.accept_false (apart _ opens).1)]
          simp only [Bool.false_eq_true, if_false]
          rw [bind_eq found, bind_eq recursion]
          rfl

end

theorem followed_sort {follow : Lexeme → Prop} {closing : Lexeme} (begins : Begins spell ok sort)
    (fits : ∀ next, sort next → follow next) (closes : follow closing)
    (allOk : items.all ok = true) :
    Followed (fun _ => follow) spell closing items := by
  induction items with
  | nil => trivial
  | cons first rest ih =>
      simp only [List.all_cons, Bool.and_eq_true] at allOk
      refine ⟨?_, ih allOk.2⟩
      intro next member
      cases rest with
      | nil =>
          obtain rfl : closing = next := by simpa using member
          exact closes
      | cons second others =>
          simp only [List.all_cons, Bool.and_eq_true] at allOk
          obtain ⟨head, more, spelled, isSort⟩ := begins second allOk.2.1
          rw [List.flatMap_cons, spelled] at member
          obtain rfl : head = next := by simpa using member
          exact fits head isSort

section
variable {opening closing : Punctuator} {follow : Lexeme → Prop}
  (each : Finds options levels item spell ok fun _ => follow) (begins : Begins spell ok sort)
  (apart : ∀ next, sort next → (next ≠ .punctuator closing ∧ next ≠ .eof) ∧ follow next)
  (closes : follow (.punctuator closing))
include each begins apart closes

theorem many_finds : Finds options levels (many (.punctuator opening) item (.punctuator closing))
    (fun items => .punctuator opening :: (items.flatMap spell ++ [.punctuator closing]))
    (fun items => !items.isEmpty && items.all ok) (fun _ _ => True) := by
  intro s s' items ready isOk moves _
  simp only [Bool.and_eq_true, Bool.not_eq_true', List.isEmpty_eq_false_iff] at isOk
  obtain ⟨s₁, opens, inside⟩ := Moves.uncons moves
  have followed := followed_sort begins (fun next isSort => (apart next isSort).2) closes isOk.2
  unfold many
  rw [bind_eq ((fixes_mark opening).expect_eq opens), rounds_eq]
  exact itemsUntil_finds each begins (fun next isSort => (apart next isSort).1) (fixes_mark closing)
    (opens.ready ready) isOk.2 isOk.1 inside followed
    (remaining_lt_rounds s₁)

theorem any_finds : Finds options levels (any (.punctuator opening) item (.punctuator closing))
    (fun items => .punctuator opening :: (items.flatMap spell ++ [.punctuator closing]))
    (fun items => items.all ok) (fun _ _ => True) := by
  intro s s' items ready isOk moves _
  obtain ⟨s₁, opens, inside⟩ := Moves.uncons moves
  have followed := followed_sort begins (fun next isSort => (apart next isSort).2) closes isOk
  unfold any
  rw [bind_eq ((fixes_mark opening).expect_eq opens), rounds_eq]
  exact anyUntil_finds each begins (fun next isSort => (apart next isSort).1) (fixes_mark closing)
    (opens.ready ready) isOk inside followed (remaining_lt_rounds s₁)

theorem optionalMany_finds :
    Finds options levels (optionalMany (.punctuator opening) item (.punctuator closing))
    (fun items => enclose opening (items.flatMap spell) closing) (fun items => items.all ok)
    (fun items next => items = [] → next ≠ .punctuator opening) := by
  intro s s' items ready isOk moves follows
  unfold optionalMany
  by_cases none : items = []
  · subst none
    obtain rfl := Moves.nil_eq moves
    rw [bind_eq ((fixes_mark opening).accept_false (follows rfl))]
    rfl
  have some' : ∀ item ∈ items, spell item ≠ [] := by
    intro item member
    obtain ⟨head, more, spelled, _⟩ := begins item (List.all_eq_true.mp isOk item member)
    simp [spelled]
  have moves : Moves s (enclose opening (items.flatMap spell) closing) s' := moves
  rw [enclose_items some' none] at moves
  obtain ⟨s₁, opens, inside⟩ := Moves.uncons moves
  have followed := followed_sort begins (fun next isSort => (apart next isSort).2) closes isOk
  rw [bind_eq ((fixes_mark opening).accept_true opens)]
  simp only [if_true]
  rw [rounds_eq]
  exact itemsUntil_finds each begins (fun next isSort => (apart next isSort).1) (fixes_mark closing)
    (opens.ready ready) isOk none inside followed
    (remaining_lt_rounds s₁)

end

theorem separated_finds {mark : Punctuator}
    (each : Finds options levels item spell ok fun _ _ => True)
    (begins : Begins spell ok fun next => next ≠ .eof) {rounds : Nat}
    (ready : s.Ready options levels) (allOk : items.all ok = true) (some' : items ≠ [])
    (moves : Moves s (separatedLexemes mark spell items) s')
    (ends : s'.current.lexeme ≠ .punctuator mark) (enough : s.remaining < rounds) :
    separated (.punctuator mark) item rounds s = .ok items s' := by
  induction items generalizing s rounds with
  | nil => exact absurd rfl some'
  | cons first rest ih =>
      cases rounds with
      | zero => omega
      | succ rounds =>
          simp only [List.all_cons, Bool.and_eq_true] at allOk
          unfold separated
          cases rest with
          | nil =>
              rw [bind_eq (each ready allOk.1 moves trivial),
                bind_eq ((fixes_mark mark).accept_false ends)]
              rfl
          | cons second others =>
              obtain ⟨s₁, starts, onward⟩ := moves.split
              obtain ⟨s₂, between, behind⟩ := Moves.uncons onward
              obtain ⟨head, more, spelled, notEnd⟩ := begins first allOk.1
              have shorter : s₁.remaining < s.remaining := by
                rw [spelled] at starts
                exact starts.remaining_lt ready.sane notEnd
              have fewer : s₂.remaining ≤ s₁.remaining := (between.sane (starts.ready ready).sane).2
              have recursion := ih (between.ready (starts.ready ready)) allOk.2
                (List.cons_ne_nil _ _) behind (by omega : s₂.remaining < rounds)
              rw [bind_eq (each ready allOk.1 starts trivial),
                bind_eq ((fixes_mark mark).accept_true between)]
              simp only [if_true]
              rw [bind_eq recursion]
              rfl

theorem delimited_finds {mark : Punctuator} {full : Bool}
    (each : Finds options levels item spell ok fun _ _ => True)
    (begins : Begins spell ok fun next => next ≠ .eof ∧ next ≠ .punctuator mark) :
    Finds options levels (delimited (.punctuator mark) item)
      (fun items => optionalMark full mark ++ separatedLexemes mark spell items)
      (fun items => !items.isEmpty && items.all ok) (fun _ next => next ≠ .punctuator mark) := by
  intro s s' items ready isOk moves follows
  simp only [Bool.and_eq_true, Bool.not_eq_true', List.isEmpty_eq_false_iff] at isOk
  obtain ⟨first, rest, rfl⟩ := List.exists_cons_of_ne_nil isOk.1
  have begins' : Begins spell ok fun next => next ≠ .eof := by
    intro item isOk
    obtain ⟨head, more, spelled, notEnd, _⟩ := begins item isOk
    exact ⟨head, more, spelled, notEnd⟩
  unfold delimited
  cases full with
  | true =>
      obtain ⟨s₁, led, onward⟩ := Moves.uncons moves
      rw [bind_eq ((fixes_mark mark).accept_true led), rounds_eq]
      exact separated_finds each begins' (led.ready ready) isOk.2 isOk.1 onward follows
        (remaining_lt_rounds s₁)
  | false =>
  have moves : Moves s (separatedLexemes mark spell (first :: rest)) s' := moves
  have ahead : s.current.lexeme ≠ .punctuator mark := by
    have allOk := isOk.2
    simp only [List.all_cons, Bool.and_eq_true] at allOk
    obtain ⟨head, more, spelled, _, noMark⟩ := begins first allOk.1
    have begun : ∃ behind, separatedLexemes mark spell (first :: rest) = head :: behind := by
      cases rest <;> simp [separatedLexemes, spelled]
    obtain ⟨behind, same⟩ := begun
    rw [same] at moves
    rwa [moves.head]
  rw [bind_eq ((fixes_mark mark).accept_false ahead), rounds_eq]
  exact separated_finds each begins' ready isOk.2 isOk.1 moves follows (remaining_lt_rounds s)

theorem whileAt_finds {mark : Punctuator} {follow : Lexeme → Prop}
    (each : Finds options levels item spell ok fun _ => follow)
    (begins : Begins spell ok fun next => next = .punctuator mark)
    (goesOn : follow (.punctuator mark))
    {rounds : Nat} (ready : s.Ready options levels) (allOk : items.all ok = true)
    (moves : Moves s (items.flatMap spell) s') (fits : follow s'.current.lexeme)
    (ends : s'.current.lexeme ≠ .punctuator mark) (enough : s.remaining < rounds) :
    whileAt (.punctuator mark) item rounds s = .ok items s' := by
  induction items generalizing s rounds with
  | nil =>
      cases rounds with
      | zero => omega
      | succ rounds =>
          obtain rfl := Moves.nil_eq moves
          unfold whileAt
          have other : s.current.kind ≠ .punctuator mark :=
            fun same => ends ((fixes_mark mark _).mp same)
          rw [current_eq, if_neg other]
          rfl
  | cons first rest ih =>
      cases rounds with
      | zero => omega
      | succ rounds =>
          simp only [List.all_cons, Bool.and_eq_true] at allOk
          rw [List.flatMap_cons] at moves
          obtain ⟨s₁, starts, onward⟩ := moves.split
          obtain ⟨head, more, spelled, rfl⟩ := begins first allOk.1
          have fit : follow s₁.current.lexeme := by
            cases rest with
            | nil =>
                obtain rfl := Moves.nil_eq onward
                exact fits
            | cons second others =>
                simp only [List.all_cons, Bool.and_eq_true] at allOk
                rw [List.flatMap_cons] at onward
                rw [begins.head_append allOk.2.1 onward]
                exact goesOn
          have one := each ready allOk.1 starts fit
          rw [spelled] at starts
          have shorter := starts.remaining_lt ready.sane (by simp)
          have recursion := ih (starts.ready ready) allOk.2 onward
            (by omega : s₁.remaining < rounds)
          have ahead : s.current.kind = .punctuator mark := (fixes_mark mark _).mpr starts.head
          unfold whileAt
          rw [current_eq, if_pos ahead, bind_eq one, bind_eq recursion]
          rfl

end

end Parser

end GraphQL
