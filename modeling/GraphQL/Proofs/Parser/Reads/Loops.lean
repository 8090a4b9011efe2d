import GraphQL.Proofs.Parser.Moves

/-!
What loops have read: what their items have read, one after the other, with the marks around
and between them.
-/

namespace GraphQL.Parser

/-- Under `options`, a parser reads exactly the lexemes of what it gives, which satisfies `ok`. -/
def Reads (options : Options) (parser : Parser α) (spell : α → List Lexeme) (ok : α → Bool) :
    Prop :=
  ∀ {s s' : State} {result : α}, s.options = options → parser s = .ok result s' →
    Moves s (spell result) s' ∧ ok result = true

theorem nested_reads {options : Options} {body : Parser α} {spell : α → List Lexeme}
    {ok : α → Bool} (inside : Reads options body spell ok) :
    Reads options (nested body) spell ok := by
  intro s s' result here parsed
  obtain ⟨_, s₁, read, rfl⟩ := nested_ok parsed
  have ⟨moves, isOk⟩ := @inside s.opened s₁ result here read
  exact ⟨moves.closed, isOk⟩

/-- Items up to a closing lexeme. What an item has read fits it and the lexeme behind it. -/
inductive Listed (fits : α → List Lexeme → Lexeme → Prop) (closing : Lexeme) :
    List α → List Lexeme → Prop
  | last {item : α} {used : List Lexeme} (fit : fits item used closing) :
      Listed fits closing [item] (used ++ [closing])
  | more {item : α} {used tail : List Lexeme} {items : List α} {next : Lexeme}
      (fit : fits item used next) (rest : Listed fits closing items (next :: tail)) :
      Listed fits closing (item :: items) (used ++ next :: tail)

theorem Listed.ne_nil {fits : α → List Lexeme → Lexeme → Prop} {closing : Lexeme} {items : List α}
    {used : List Lexeme} (listed : Listed fits closing items used) : used ≠ [] := by
  cases listed <;> simp

theorem Listed.map {fits : α → List Lexeme → Lexeme → Prop}
    {fits' : β → List Lexeme → Lexeme → Prop} {change : α → β} {closing : Lexeme} {items : List α}
    {used : List Lexeme} (listed : Listed fits closing items used)
    (each : ∀ {item : α} {used : List Lexeme} {next : Lexeme}, item ∈ items →
      fits item used next → fits' (change item) used next) :
    Listed fits' closing (items.map change) used := by
  induction listed with
  | last fit => exact .last (each List.mem_cons_self fit)
  | more fit _ ih =>
      refine .more (each List.mem_cons_self fit) (ih fun member fit => ?_)
      exact each (List.mem_cons_of_mem _ member) fit

theorem Listed.begins {fits : α → List Lexeme → Lexeme → Prop} {closing : Lexeme} {items : List α}
    {used : List Lexeme} {sort : Lexeme → Prop} (listed : Listed fits closing items used)
    (each : ∀ {item : α} {used : List Lexeme} {next : Lexeme}, fits item used next →
      ∃ first rest, used = first :: rest ∧ sort first) :
    ∃ first rest, used = first :: rest ∧ sort first := by
  cases listed with
  | last fit | more fit _ =>
      obtain ⟨first, rest, rfl, isSort⟩ := each fit
      exact ⟨first, _, rfl, isSort⟩

theorem Listed.used_eq {spell : α → List Lexeme} {ok : α → Bool} {closing : Lexeme}
    {items : List α} {used : List Lexeme}
    (listed : Listed (fun item used _ => used = spell item ∧ ok item = true) closing items used) :
    used = items.flatMap spell ++ [closing] ∧ items ≠ [] ∧ items.all ok = true := by
  induction listed with
  | last fit =>
      obtain ⟨rfl, isOk⟩ := fit
      simp [isOk]
  | more fit _ ih =>
      obtain ⟨rfl, isOk⟩ := fit
      obtain ⟨behind, _, allOk⟩ := ih
      rw [behind]
      simp [isOk, allOk]

section
variable {options : Options} {item : Parser α} {close : TokenKind} {closing : Lexeme}
  {s s' : State} {found : List α}

theorem itemsUntil_listed (fits : α → List Lexeme → Lexeme → Prop) (fixes : Fixes close closing)
    (each : ∀ {s s' : State} {found : α}, s.options = options → item s = .ok found s' →
      ∃ used, Moves s used s' ∧ fits found used s'.current.lexeme)
    {rounds : Nat} (here : s.options = options)
    (parsed : itemsUntil close item rounds s = .ok found s') :
    ∃ used, Moves s used s' ∧ Listed fits closing found used := by
  induction rounds generalizing s found with
  | zero => exact absurd parsed fail_ne_ok
  | succ rounds ih =>
      unfold itemsUntil at parsed
      obtain ⟨first, s₁, one, parsed⟩ := bind_ok parsed
      obtain ⟨used, moves, fit⟩ := each here one
      obtain ⟨taken, s₂, ahead, parsed⟩ := bind_ok parsed
      rcases fixes.accept_ok ahead with ⟨rfl, closes⟩ | ⟨rfl, _, rfl⟩
      · cases parsed
        rw [closes.head] at fit
        exact ⟨_, moves.append closes, .last fit⟩
      · obtain ⟨others, s₃, rest, parsed⟩ := bind_ok parsed
        cases parsed
        obtain ⟨behind, onward, listed⟩ := ih (moves.options.trans here) rest
        cases behind with
        | nil => exact absurd rfl listed.ne_nil
        | cons next tail =>
            rw [onward.head] at fit
            exact ⟨_, moves.append onward, .more fit listed⟩

variable {spell : α → List Lexeme} {ok : α → Bool} (each : Reads options item spell ok)
include each

theorem itemsUntil_reads (fixes : Fixes close closing) {rounds : Nat} (here : s.options = options)
    (parsed : itemsUntil close item rounds s = .ok found s') :
    Moves s (found.flatMap spell ++ [closing]) s' ∧ found ≠ [] ∧ found.all ok = true := by
  have reads : ∀ {s s' : State} {found : α}, s.options = options → item s = .ok found s' →
      ∃ used, Moves s used s' ∧ used = spell found ∧ ok found = true := by
    intro s s' found here parsed
    obtain ⟨moves, isOk⟩ := each here parsed
    exact ⟨_, moves, rfl, isOk⟩
  obtain ⟨used, moves, listed⟩ :=
    itemsUntil_listed (fun item used _ => used = spell item ∧ ok item = true) fixes reads here
      parsed
  obtain ⟨rfl, some', allOk⟩ := listed.used_eq
  exact ⟨moves, some', allOk⟩

theorem anyUntil_reads (fixes : Fixes close closing) {rounds : Nat} (here : s.options = options)
    (parsed : anyUntil close item rounds s = .ok found s') :
    Moves s (found.flatMap spell ++ [closing]) s' ∧ found.all ok = true := by
  induction rounds generalizing s found with
  | zero => exact absurd parsed fail_ne_ok
  | succ rounds ih =>
      unfold anyUntil at parsed
      obtain ⟨taken, s₁, ahead, parsed⟩ := bind_ok parsed
      rcases fixes.accept_ok ahead with ⟨rfl, closes⟩ | ⟨rfl, _, rfl⟩
      · cases parsed
        exact ⟨closes, rfl⟩
      · obtain ⟨first, s₂, one, parsed⟩ := bind_ok parsed
        obtain ⟨others, s₃, rest, parsed⟩ := bind_ok parsed
        cases parsed
        obtain ⟨moves, isOk⟩ := each here one
        obtain ⟨onward, allOk⟩ := ih (moves.options.trans here) rest
        refine ⟨?_, by simp [isOk, allOk]⟩
        simpa using moves.append onward

theorem many_reads {opening : Punctuator} {closing : Punctuator} :
    Reads options (many (.punctuator opening) item (.punctuator closing))
      (fun found => .punctuator opening :: (found.flatMap spell ++ [.punctuator closing]))
      (fun found => !found.isEmpty && found.all ok) := by
  intro s s' found here parsed
  obtain ⟨_, s₁, opened, parsed⟩ := bind_ok parsed
  rw [rounds_eq] at parsed
  have opens := (fixes_mark opening).expect_ok opened
  obtain ⟨moves, some', allOk⟩ :=
    itemsUntil_reads each (fixes_mark closing) (opens.options.trans here) parsed
  exact ⟨opens.append moves, by simp [some', allOk]⟩

theorem any_reads {opening : Punctuator} {closing : Punctuator} :
    Reads options (any (.punctuator opening) item (.punctuator closing))
      (fun found => .punctuator opening :: (found.flatMap spell ++ [.punctuator closing]))
      (fun found => found.all ok) := by
  intro s s' found here parsed
  obtain ⟨_, s₁, opened, parsed⟩ := bind_ok parsed
  rw [rounds_eq] at parsed
  have opens := (fixes_mark opening).expect_ok opened
  obtain ⟨moves, allOk⟩ :=
    anyUntil_reads each (fixes_mark closing) (opens.options.trans here) parsed
  exact ⟨opens.append moves, allOk⟩

theorem optionalMany_reads (some' : ∀ item, spell item ≠ []) {opening : Punctuator}
    {closing : Punctuator} :
    Reads options (optionalMany (.punctuator opening) item (.punctuator closing))
      (fun found => enclose opening (found.flatMap spell) closing) (fun found => found.all ok) := by
  intro s s' found here parsed
  obtain ⟨taken, s₁, opened, parsed⟩ := bind_ok parsed
  rcases (fixes_mark opening).accept_ok opened with ⟨rfl, opens⟩ | ⟨rfl, _, rfl⟩
  · simp only [if_true] at parsed
    rw [rounds_eq] at parsed
    obtain ⟨moves, nonempty, allOk⟩ :=
      itemsUntil_reads each (fixes_mark closing) (opens.options.trans here) parsed
    refine ⟨?_, allOk⟩
    show Moves s (enclose opening (found.flatMap spell) closing) s'
    rw [enclose_items (fun item _ => some' item) nonempty]
    exact opens.append moves
  · cases parsed
    exact ⟨.stay, rfl⟩

omit each in
theorem optionalMany_none {opening : Punctuator} {closing : TokenKind}
    (parsed : optionalMany (.punctuator opening) item closing s = .ok [] s') :
    s'.current.lexeme ≠ .punctuator opening := by
  obtain ⟨taken, s₁, opened, parsed⟩ := bind_ok parsed
  rcases (fixes_mark opening).accept_ok opened with ⟨rfl, opens⟩ | ⟨rfl, other, rfl⟩
  · simp only [if_true] at parsed
    rw [rounds_eq] at parsed
    unfold itemsUntil at parsed
    obtain ⟨first, s₂, one, parsed⟩ := bind_ok parsed
    obtain ⟨closed, s₃, ahead, parsed⟩ := bind_ok parsed
    split at parsed
    · cases parsed
    · obtain ⟨others, s₄, rest, parsed⟩ := bind_ok parsed
      cases parsed
  · cases parsed
    exact other

theorem separated_reads {mark : Punctuator} {rounds : Nat} (here : s.options = options)
    (parsed : separated (.punctuator mark) item rounds s = .ok found s') :
    Moves s (separatedLexemes mark spell found) s' ∧ found ≠ [] ∧ found.all ok = true := by
  induction rounds generalizing s found with
  | zero => exact absurd parsed fail_ne_ok
  | succ rounds ih =>
      unfold separated at parsed
      obtain ⟨first, s₁, one, parsed⟩ := bind_ok parsed
      obtain ⟨moves, isOk⟩ := each here one
      obtain ⟨taken, s₂, ahead, parsed⟩ := bind_ok parsed
      rcases (fixes_mark mark).accept_ok ahead with ⟨rfl, between⟩ | ⟨rfl, _, rfl⟩
      · obtain ⟨others, s₃, rest, parsed⟩ := bind_ok parsed
        cases parsed
        obtain ⟨onward, some', allOk⟩ :=
          ih (between.options.trans (moves.options.trans here)) rest
        refine ⟨?_, List.cons_ne_nil _ _, by simp [isOk, allOk]⟩
        cases others with
        | nil => exact absurd rfl some'
        | cons next more => exact moves.append (between.append onward)
      · cases parsed
        exact ⟨moves, List.cons_ne_nil _ _, by simp [isOk]⟩

theorem delimited_reads {mark : Punctuator} (here : s.options = options)
    (parsed : delimited (.punctuator mark) item s = .ok found s') :
    ∃ full, Moves s (optionalMark full mark ++ separatedLexemes mark spell found) s' ∧
      found ≠ [] ∧ found.all ok = true := by
  obtain ⟨taken, s₁, ahead, parsed⟩ := bind_ok parsed
  rw [rounds_eq] at parsed
  rcases (fixes_mark mark).accept_ok ahead with ⟨rfl, led⟩ | ⟨rfl, _, rfl⟩
  · obtain ⟨moves, some', allOk⟩ := separated_reads each (led.options.trans here) parsed
    exact ⟨true, led.append moves, some', allOk⟩
  · obtain ⟨moves, some', allOk⟩ := separated_reads each here parsed
    exact ⟨false, moves, some', allOk⟩

theorem whileAt_reads {mark : TokenKind} {rounds : Nat} (here : s.options = options)
    (parsed : whileAt mark item rounds s = .ok found s') :
    Moves s (found.flatMap spell) s' ∧ found.all ok = true := by
  induction rounds generalizing s found with
  | zero => exact absurd parsed fail_ne_ok
  | succ rounds ih =>
      unfold whileAt at parsed
      rw [current_eq] at parsed
      split at parsed
      · obtain ⟨first, s₁, one, parsed⟩ := bind_ok parsed
        obtain ⟨others, s₂, rest, parsed⟩ := bind_ok parsed
        cases parsed
        obtain ⟨moves, isOk⟩ := each here one
        obtain ⟨onward, allOk⟩ := ih (moves.options.trans here) rest
        exact ⟨by simpa using moves.append onward, by simp [isOk, allOk]⟩
      · cases parsed
        exact ⟨.stay, rfl⟩

end

end GraphQL.Parser
