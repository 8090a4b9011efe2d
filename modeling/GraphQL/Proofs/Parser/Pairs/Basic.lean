import GraphQL.Parser.TypeSystem
import GraphQL.Proofs.Parser.Steps

/-!
Two runs of a parser side by side. Where each step of one run has its counterpart in the other,
so has each production: it succeeds in both runs with the same result, locations apart, or
fails in both with the same error. The two runs may be over different texts or have
different options, and some errors may be allowed to the first run alone. What each step of
the first run keeps, all of its productions keep, also where they fail.
-/

namespace GraphQL

def Complaint.isLimit : Complaint → Bool
  | tooManyTokens _ | tooDeep _ => true
  | _ => false

/-- Whether a complaint fits the token that it is about, where a parser makes it in this state. It
names that token. A variable is told by its name behind it, and a string is only taken for the
name of an enum value where its description stands in front of it. -/
def Complaint.Fits (s : Parser.State) (token : Token) : Complaint → Prop
  | unexpected found | expected _ found | expectedKeyword _ found => found = token.lexeme
  | constVariable name =>
      token.lexeme = .punctuator .dollar ∧ s.last = token ∧ s.current.lexeme = .name name
  | reservedFragmentName found => found = token.lexeme ∧ found = .name "on"
  | reservedEnumValue found =>
      found = token.lexeme ∧ found.text ∈ ["true", "false", "null"] ∧ s.current = token ∧
        (Parser.isDescription token = true → Parser.isDescription s.last = true)
  | misplacedDescription => Parser.isDescription token = true
  | tooManyTokens _ | tooDeep _ => True

namespace Parser

/-- How two runs belong together: which of their states, tokens and errors are counterparts,
how many levels may still open in each, and how a location of the first becomes one of the
second. An excused error of the first run asks nothing of the second. `leads` tells which
states the first run may come to from which. -/
structure Pairing where
  states : State → State → Prop
  tokens : Token → Token → Prop
  errors : SyntaxError → SyntaxError → Prop
  levels : Nat → Nat → Prop
  relocate : Option Location → Option Location
  excused : SyntaxError → Prop
  leads : State → State → Prop

namespace Pairing

variable (pair : Pairing)

def Onward (before after : State) : Prop :=
  ∀ origin, pair.leads origin before → pair.leads origin after

def Outcome (fits : α → β → Prop) (before : State) :
    EStateM.Result SyntaxError State α → EStateM.Result SyntaxError State β → Prop
  | .ok a s, .ok b t => fits a b ∧ pair.states s t ∧ pair.Onward before s
  | .ok _ _, .error _ _ => False
  | .error e s, second => pair.Onward before s ∧
      (pair.excused e ∨ ∃ f t, second = .error f t ∧ pair.errors e f)

/-- From any two states that are counterparts, both parsers come to the same outcome. -/
def Agree (fits : α → β → Prop) (first : Parser α) (second : Parser β) : Prop :=
  ∀ s t : State, pair.states s t → pair.Outcome fits s (first s) (second t)

def Maps (change : α → β) (first : Parser α) (second : Parser β) : Prop :=
  pair.Agree (fun a b => b = change a) first second

/-- The single steps of both runs are counterparts. Where the first run may open a node, so may
the second; where it may not, the second may not either, or need not agree. -/
structure Lawful : Prop where
  lexeme_eq {a b : Token} (twins : pair.tokens a b) : a.lexeme = b.lexeme
  current_twins {s t : State} (alike : pair.states s t) : pair.tokens s.current t.current
  fail_errors {s t : State} {a b : Token} (alike : pair.states s t) (twins : pair.tokens a b)
    {complaint : Complaint} (grammar : complaint.isLimit = false) (about : complaint.Fits s a) :
    pair.errors (complaint.error s.source a) (complaint.error t.source b)
  advance_maps : pair.Maps id advance advance
  lookahead_agree : pair.Agree pair.tokens lookahead lookahead
  span_maps {a b : Token} (twins : pair.tokens a b) : pair.Maps pair.relocate (span a) (span b)
  rounds_maps : pair.Maps id rounds rounds
  opened {n m : Nat} (deeper : pair.levels (n + 1) (m + 1)) : pair.levels n m
  closed {n : Nat} (deepest : pair.levels n 0) : n = 0
  deepest {m : Nat} {s t : State} (none : pair.levels 0 m) (alike : pair.states s t) :
    pair.excused s.tooDeepError ∨ m = 0 ∧ pair.errors s.tooDeepError t.tooDeepError
  full {s t : State} (alike : pair.states s t) (full : s.options.maxNestingDepth ≤ s.depth) :
    pair.excused s.tooDeepError ∨
      t.options.maxNestingDepth ≤ t.depth ∧ pair.errors s.tooDeepError t.tooDeepError
  opens {s t : State} (alike : pair.states s t) (free : s.depth < s.options.maxNestingDepth) :
    t.depth < t.options.maxNestingDepth ∧ pair.states s.opened t.opened
  closes {s t : State} (alike : pair.states s t) : pair.states s.closed t.closed
  nested_leads {s s' : State} (free : s.depth < s.options.maxNestingDepth)
    (inside : pair.Onward s.opened s') : pair.Onward s s'.closed

variable {pair : Pairing}

theorem Onward.stay {s : State} : pair.Onward s s := fun _ leads => leads

theorem Onward.trans {s s₁ s' : State} (first : pair.Onward s s₁) (second : pair.Onward s₁ s') :
    pair.Onward s s' := fun origin leads => second origin (first origin leads)

theorem Outcome.behind {fits : α → β → Prop} {before s : State}
    {first : EStateM.Result SyntaxError State α} {second : EStateM.Result SyntaxError State β}
    (leads : pair.Onward before s) (outcome : pair.Outcome fits s first second) :
    pair.Outcome fits before first second := by
  cases first with
  | ok a s' =>
      cases second with
      | ok b t' => exact ⟨outcome.1, outcome.2.1, leads.trans outcome.2.2⟩
      | error f t' => exact outcome
  | error e s' => exact ⟨leads.trans outcome.1, outcome.2⟩

section
variable {fits : α → β → Prop} {more : γ → δ → Prop} {first : Parser α} {second : Parser β}

theorem agree_pure {a : α} {b : β} (fit : fits a b) :
    pair.Agree fits (pure a : Parser α) (pure b : Parser β) :=
  fun _ _ alike => ⟨fit, alike, .stay⟩

/-- What follows a part may depend on the state in which the first run left it. -/
theorem Outcome.bind {s t : State} (outcome : pair.Outcome fits s (first s) (second t))
    {next : α → Parser γ} {next' : β → Parser δ}
    (onward : ∀ {a b s₁ t₁}, first s = .ok a s₁ → fits a b → pair.states s₁ t₁ →
      pair.Outcome more s₁ (next a s₁) (next' b t₁)) :
    pair.Outcome more s ((first >>= next) s) ((second >>= next') t) := by
  simp only [Bind.bind, EStateM.bind]
  cases one : first s with
  | error e s₁ =>
      rw [one] at outcome
      obtain ⟨leads, excused | ⟨f, t₁, other, same⟩⟩ := outcome
      · exact ⟨leads, .inl excused⟩
      · rw [other]
        exact ⟨leads, .inr ⟨f, t₁, rfl, same⟩⟩
  | ok a s₁ =>
      cases other : second t with
      | error f t₁ =>
          rw [one, other] at outcome
          exact outcome.elim
      | ok b t₁ =>
          rw [one, other] at outcome
          obtain ⟨fit, still, leads⟩ := outcome
          exact (onward one fit still).behind leads

theorem Agree.bind (agree : pair.Agree fits first second) {next : α → Parser γ}
    {next' : β → Parser δ} (onward : ∀ {a b}, fits a b → pair.Agree more (next a) (next' b)) :
    pair.Agree more (first >>= next) (second >>= next') := fun s t alike =>
  (agree s t alike).bind fun {_ _ s₁ t₁} _ fit still => onward fit s₁ t₁ still

theorem Maps.bind {change : α → β} (maps : pair.Maps change first second) {next : α → Parser γ}
    {next' : β → Parser δ} (onward : ∀ a, pair.Agree more (next a) (next' (change a))) :
    pair.Agree more (first >>= next) (second >>= next') := by
  refine Agree.bind maps fun {a b} same => ?_
  subst same
  exact onward a

theorem Agree.ite {p q : Prop} [Decidable p] [Decidable q] (same : p ↔ q) {no : Parser α}
    {no' : Parser β} (yes : pair.Agree fits first second) (other : pair.Agree fits no no') :
    pair.Agree fits (if p then first else no) (if q then second else no') := by
  by_cases holds : p
  · rw [if_pos holds, if_pos (same.mp holds)]
    exact yes
  · rw [if_neg holds, if_neg fun back => holds (same.mpr back)]
    exact other

theorem Maps.map {change : α → β} (maps : pair.Maps change first second) {wrap : α → γ}
    {wrap' : β → δ} (same : ∀ a, more (wrap a) (wrap' (change a))) :
    pair.Agree more (wrap <$> first) (wrap' <$> second) := by
  rw [← bind_pure_comp, ← bind_pure_comp]
  exact maps.bind fun a => agree_pure (same a)

end

namespace Lawful

variable (lawful : pair.Lawful)
include lawful

/-! Single steps. -/

section
variable {fits : α → β → Prop}

theorem withCurrent {next : Token → Parser α} {next' : Token → Parser β}
    (onward : ∀ {a b}, pair.tokens a b → pair.Agree fits (next a) (next' b)) :
    pair.Agree fits (current >>= next) (current >>= next') := fun s t alike =>
  onward (lawful.current_twins alike) s t alike

theorem outcome_fail {s t : State} (alike : pair.states s t) {a b : Token}
    (twins : pair.tokens a b) {complaint : Complaint} (grammar : complaint.isLimit = false)
    (about : complaint.Fits s a) :
    pair.Outcome fits s (fail a complaint s) (fail b complaint t) :=
  ⟨.stay, .inr ⟨_, _, rfl, lawful.fail_errors alike twins grammar about⟩⟩

theorem agree_fail {a b : Token} (twins : pair.tokens a b) {complaint : Complaint}
    (grammar : complaint.isLimit = false) (about : ∀ s, complaint.Fits s a) :
    pair.Agree fits (fail a complaint) (fail b complaint) := fun s _ alike =>
  lawful.outcome_fail alike twins grammar (about s)

theorem agree_failOn {a b : Token} (twins : pair.tokens a b) {complaint : Lexeme → Complaint}
    (grammar : ∀ found, (complaint found).isLimit = false)
    (about : ∀ s, (complaint a.lexeme).Fits s a) :
    pair.Agree fits (fail a (complaint a.lexeme)) (fail b (complaint b.lexeme)) := by
  rw [← lawful.lexeme_eq twins]
  exact lawful.agree_fail twins (grammar _) about

theorem agree_unexpected : pair.Agree fits unexpected unexpected := fun s t alike =>
  have failed : pair.Agree fits (fail s.current (.unexpected s.current.lexeme))
      (fail t.current (.unexpected t.current.lexeme)) :=
    lawful.agree_failOn (lawful.current_twins alike) (fun _ => rfl) fun _ => rfl
  failed s t alike

theorem agree_tooDeep {m : Nat} {second : Parser β} (none : pair.levels 0 m)
    (refuses : m = 0 → second = tooDeep) : pair.Agree fits tooDeep second := by
  intro s t alike
  rcases lawful.deepest none alike with excused | ⟨also, same⟩
  · exact ⟨.stay, .inl excused⟩
  · rw [refuses also]
    exact ⟨.stay, .inr ⟨_, _, rfl, same⟩⟩

theorem agree_nested {first : Parser α} {second : Parser β}
    (agree : pair.Agree fits first second) : pair.Agree fits (nested first) (nested second) := by
  intro s t alike
  by_cases free : s.depth < s.options.maxNestingDepth
  · obtain ⟨also, inside⟩ := lawful.opens alike free
    have outcome := agree s.opened t.opened inside
    simp only [nested, if_pos free, if_pos also]
    cases one : first s.opened with
    | error e s₁ =>
        rw [one] at outcome
        obtain ⟨leads, excused | ⟨f, t₁, other, same⟩⟩ := outcome
        · exact ⟨lawful.nested_leads free leads, .inl excused⟩
        · rw [other]
          exact ⟨lawful.nested_leads free leads, .inr ⟨f, t₁.closed, rfl, same⟩⟩
    | ok a s₁ =>
        cases other : second t.opened with
        | error f t₁ =>
            rw [one, other] at outcome
            exact outcome.elim
        | ok b t₁ =>
            rw [one, other] at outcome
            obtain ⟨fit, still, leads⟩ := outcome
            exact ⟨fit, lawful.closes still, lawful.nested_leads free leads⟩
  · simp only [nested, if_neg free]
    rcases lawful.full alike (Nat.le_of_not_lt free) with excused | ⟨also, same⟩
    · exact ⟨.stay, .inl excused⟩
    · rw [if_neg (Nat.not_lt.mpr also)]
      exact ⟨.stay, .inr ⟨_, _, rfl, same⟩⟩

end

theorem kind_eq {a b : Token} (twins : pair.tokens a b) : a.kind = b.kind :=
  congrArg Lexeme.kind (lawful.lexeme_eq twins)

theorem text_eq {a b : Token} (twins : pair.tokens a b) : a.text = b.text :=
  congrArg Lexeme.text (lawful.lexeme_eq twins)

theorem expect_maps (kind : TokenKind) : pair.Maps id (expect kind) (expect kind) := by
  refine lawful.withCurrent fun {a b} twins => ?_
  refine .ite (by rw [lawful.kind_eq twins]) lawful.advance_maps ?_
  exact lawful.agree_failOn twins (fun _ => rfl) fun _ => rfl

theorem accept_maps (kind : TokenKind) : pair.Maps id (accept kind) (accept kind) := by
  refine lawful.withCurrent fun {a b} twins => ?_
  refine .ite (by rw [lawful.kind_eq twins]) (lawful.advance_maps.bind fun _ => ?_) ?_
  · exact agree_pure rfl
  · exact agree_pure rfl

theorem expectKeyword_maps (keyword : String) :
    pair.Maps id (expectKeyword keyword) (expectKeyword keyword) := by
  refine lawful.withCurrent fun {a b} twins => ?_
  refine .ite (by rw [lawful.lexeme_eq twins]) lawful.advance_maps ?_
  exact lawful.agree_failOn twins (fun _ => rfl) fun _ => rfl

theorem acceptKeyword_maps (keyword : String) :
    pair.Maps id (acceptKeyword keyword) (acceptKeyword keyword) := by
  refine lawful.withCurrent fun {a b} twins => ?_
  refine .ite (by rw [lawful.lexeme_eq twins]) (lawful.advance_maps.bind fun _ => ?_) ?_
  · exact agree_pure rfl
  · exact agree_pure rfl

theorem located {a b : Token} (twins : pair.tokens a b) {fits : α → β → Prop}
    {node : Option Location → α} {node' : Option Location → β}
    (same : ∀ loc, fits (node loc) (node' (pair.relocate loc))) :
    pair.Agree fits (do return node (← span a)) (do return node' (← span b)) :=
  (lawful.span_maps twins).bind fun loc => agree_pure (same loc)

/-! Loops. -/

section
variable {item : Parser α} {item' : Parser β} {change : α → β}
  (each : pair.Maps change item item')
include each

theorem itemsUntil_maps (close : TokenKind) (rounds : Nat) :
    pair.Maps (List.map change) (itemsUntil close item rounds)
      (itemsUntil close item' rounds) := by
  induction rounds with
  | zero => exact lawful.agree_unexpected
  | succ rounds ih =>
      refine each.bind fun first => (lawful.accept_maps close).bind fun closed => ?_
      refine .ite Iff.rfl (agree_pure rfl) ?_
      exact ih.bind fun rest => agree_pure rfl

theorem anyUntil_maps (close : TokenKind) (rounds : Nat) :
    pair.Maps (List.map change) (anyUntil close item rounds)
      (anyUntil close item' rounds) := by
  induction rounds with
  | zero => exact lawful.agree_unexpected
  | succ rounds ih =>
      refine (lawful.accept_maps close).bind fun closed => .ite Iff.rfl (agree_pure rfl) ?_
      exact each.bind fun first => ih.bind fun rest => agree_pure rfl

theorem separated_maps (separator : TokenKind) (rounds : Nat) :
    pair.Maps (List.map change) (separated separator item rounds)
      (separated separator item' rounds) := by
  induction rounds with
  | zero => exact lawful.agree_unexpected
  | succ rounds ih =>
      refine each.bind fun first => (lawful.accept_maps separator).bind fun goesOn => ?_
      refine .ite Iff.rfl ?_ (agree_pure rfl)
      exact ih.bind fun rest => agree_pure rfl

theorem whileAtRounds_maps (mark : TokenKind) (rounds : Nat) :
    pair.Maps (List.map change) (whileAt mark item rounds) (whileAt mark item' rounds) := by
  induction rounds with
  | zero => exact lawful.agree_unexpected
  | succ rounds ih =>
      refine lawful.withCurrent fun {a b} twins => ?_
      refine .ite (by rw [lawful.kind_eq twins]) ?_ (agree_pure rfl)
      exact each.bind fun first => ih.bind fun rest => agree_pure rfl

theorem many_maps (opening closing : TokenKind) :
    pair.Maps (List.map change) (many opening item closing)
      (many opening item' closing) :=
  (lawful.expect_maps opening).bind fun _ => lawful.rounds_maps.bind fun rounds =>
    lawful.itemsUntil_maps each closing rounds

theorem any_maps (opening closing : TokenKind) :
    pair.Maps (List.map change) (any opening item closing) (any opening item' closing) :=
  (lawful.expect_maps opening).bind fun _ => lawful.rounds_maps.bind fun rounds =>
    lawful.anyUntil_maps each closing rounds

theorem optionalMany_maps (opening closing : TokenKind) :
    pair.Maps (List.map change) (optionalMany opening item closing)
      (optionalMany opening item' closing) := by
  refine (lawful.accept_maps opening).bind fun opened => .ite Iff.rfl ?_ (agree_pure rfl)
  exact lawful.rounds_maps.bind fun rounds => lawful.itemsUntil_maps each closing rounds

theorem delimited_maps (separator : TokenKind) :
    pair.Maps (List.map change) (delimited separator item) (delimited separator item') :=
  (lawful.accept_maps separator).bind fun _ => lawful.rounds_maps.bind fun rounds =>
    lawful.separated_maps each separator rounds

theorem whileAt_maps (mark : TokenKind) :
    pair.Maps (List.map change) (do whileAt mark item (← rounds))
      (do whileAt mark item' (← rounds)) :=
  lawful.rounds_maps.bind fun rounds => lawful.whileAtRounds_maps each mark rounds

theorem whole_outcome {s t : State}
    (begun : pair.Outcome (fun a b => b = id a) s (expect .sof s) (expect .sof t)) :
    pair.Outcome (fun a b => b = change a) s (whole item s) (whole item' t) := by
  have behind : pair.Agree (fun a b => b = change a) (do let found ← item; expect .eof; return found)
      (do let found ← item'; expect .eof; return found) :=
    each.bind fun found => (lawful.expect_maps .eof).bind fun _ => agree_pure rfl
  exact begun.bind fun {_ _ s₁ t₁} _ _ alike => behind s₁ t₁ alike

theorem whole_maps : pair.Maps change (whole item) (whole item') := fun s t alike =>
  lawful.whole_outcome each (lawful.expect_maps .sof s t alike)

end

end Lawful

end Pairing

end Parser

end GraphQL
