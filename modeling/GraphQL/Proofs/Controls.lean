import GraphQL.Proofs.Lexical.Clean
import GraphQL.Proofs.Tiling

/-!
Control characters of a source that is read to its end. None stands between the tokens or in one
that is not a comment, so all that get through do so in comments.
-/

namespace GraphQL

/-- A control character other than a tab, a line feed and a carriage return. -/
def IsControl (c : Char) : Prop := c.toNat < 0x20 ∧ c ≠ '\t' ∧ c ≠ '\n' ∧ c ≠ '\r'

instance (c : Char) : Decidable (IsControl c) := inferInstanceAs (Decidable (_ ∧ _))

theorem isControl_iff {c : Char} : IsControl c ↔ Lexical.isForbidden c = true := by
  simp [IsControl, Lexical.isForbidden, isLineBreak, and_assoc]

/-- The character behind `before` stands in the text of a comment. -/
def InComment (tokens : List Token) (before : List Char) (c : Char) : Prop :=
  ∃ token ∈ tokens, ∃ text, token.lexeme = .comment text ∧ c ∈ text.toList ∧
    token.start < byteLength before ∧ byteLength before < token.stop

theorem InComment.append {tokens : List Token} {before : List Char} {c : Char}
    (inComment : InComment tokens before c) (others : List Token) :
    InComment (tokens ++ others) before c := by
  obtain ⟨token, member, text, rest⟩ := inComment
  exact ⟨token, List.mem_append_left others member, text, rest⟩

theorem split_append {left right before after : List Char} {c : Char}
    (same : left ++ right = before ++ c :: after) :
    (∃ tail, left = before ++ c :: tail) ∨
      ∃ front, before = left ++ front ∧ right = front ++ c :: after := by
  rcases List.append_eq_append_iff.mp same with ⟨front, split, behind⟩ | ⟨tail, split, behind⟩
  · exact .inr ⟨front, split, behind⟩
  · cases tail with
    | nil => exact .inr ⟨[], by rw [split]; simp, behind.symm⟩
    | cons d tail =>
        obtain ⟨rfl, _⟩ := List.cons.inj behind
        exact .inl ⟨tail, split⟩

theorem Token.Covers.inComment {token : Token} {before front tail after : List Char} {c : Char}
    (covers : token.Covers before (front ++ c :: tail) after)
    (control : Lexical.isForbidden c = true) : InComment [token] (before ++ front) c := by
  have isComment : token.isSignificant = false := by
    refine Bool.eq_false_iff.mpr fun significant => ?_
    have noComment : token.lexeme.isComment = false := by
      simpa [Token.isSignificant] using significant
    have allowed := covers.sliced.clean noComment c List.mem_append_cons_self
    rw [control] at allowed
    cases allowed
  obtain ⟨words, slice, lexeme, _⟩ := covers.comment isComment
  cases front with
  | nil =>
      obtain ⟨rfl, _⟩ := List.cons.inj slice
      cases control
  | cons sign front =>
      obtain ⟨_, rfl⟩ := List.cons.inj slice
      refine ⟨token, List.mem_singleton_self token, _, lexeme, by simp, ?_, ?_⟩
      · rw [covers.start, byteLength_append]
        exact Nat.lt_add_of_pos_right (byteLength_pos (List.cons_ne_nil sign front))
      · rw [covers.stop, byteLength_append, byteLength_append, byteLength_append]
        have positive := byteLength_pos (List.cons_ne_nil c tail)
        omega

namespace Grown

variable {source : Source} {behind before after : List Char} {tokens : List Token} {c : Char}

/-- As long as no read has failed, control characters were passed in comments only. -/
theorem inComment (grown : Grown source true behind tokens) (split : behind = before ++ c :: after)
    (control : Lexical.isForbidden c = true) : InComment tokens before c := by
  generalize isClean : true = clean at grown
  induction grown generalizing before after with
  | start => simp at split
  | @token clean behind gap slice rest tokens token grown goesOn ignored whole covers prev ih =>
      rcases split_append split with ⟨tail, passed⟩ | ⟨front, rfl, rfl⟩
      · rcases split_append passed with ⟨tail, passed⟩ | ⟨front, rfl, rfl⟩
        · exact (ih passed isClean).append [token]
        · have allowed := Lexical.allowed_ignored (ignored c List.mem_append_cons_self)
          rw [control] at allowed
          cases allowed
      · obtain ⟨_, member, found⟩ := covers.inComment control
        exact ⟨_, List.mem_append_right tokens member, found⟩
  | fault => cases isClean

theorem mem_of_comment {clean : Bool} (grown : Grown source clean behind tokens) {token : Token}
    (member : token ∈ tokens) {text : String} (comment : token.lexeme = .comment text)
    (inside : c ∈ text.toList) : c ∈ behind := by
  induction grown with
  | start =>
      rw [List.mem_singleton.mp member] at comment
      cases comment
  | @token clean behind gap slice rest tokens token' grown goesOn ignored whole covers prev ih =>
      rcases List.mem_append.mp member with old | new
      · exact List.mem_append_left _ (List.mem_append_left _ (ih old))
      · obtain rfl := List.mem_singleton.mp new
        have form := covers.sliced.form
        rw [comment] at form
        rw [show slice = '#' :: text.toList from form]
        exact List.mem_append_right _ (List.mem_cons_of_mem _ inside)
  | fault _ more ih => exact List.mem_append_left more (ih member)

end Grown

/-- Wherever a control character stands in a source that is read to its end, it stands in the text
of a comment. So the source is free of them exactly if its comments are. -/
theorem Source.controls_inComment {source : Source} {lexer : Lexer}
    (finished : source.lex = (none, lexer)) :
    (∀ before c after, source.chars = before ++ c :: after → IsControl c →
      InComment lexer.tokens.toList before c) ∧
    ((∀ c ∈ source.chars, ¬IsControl c) ↔
      ∀ token ∈ lexer.tokens, ∀ text, token.lexeme = .comment text →
        ∀ c ∈ text.toList, ¬IsControl c) := by
  have grown := (Lexer.reached_of_lex finished).whole (Lexer.ended_of_lex finished)
  have each : ∀ before c after, source.chars = before ++ c :: after → IsControl c →
      InComment lexer.tokens.toList before c := fun before c after whole control =>
    grown.inComment whole (isControl_iff.mp control)
  refine ⟨each, fun free token member text comment c inside => ?_, fun free c member control => ?_⟩
  · exact free c (grown.mem_of_comment (Array.mem_toList_iff.mpr member) comment inside)
  · obtain ⟨before, after, whole⟩ := List.append_of_mem member
    obtain ⟨token, listed, text, comment, inside, _⟩ := each before c after whole control
    exact free token (Array.mem_toList_iff.mp listed) text comment c inside control

/-- A bell in a comment, a tab and line breaks outside of it. -/
theorem Source.controls_inComment_bell :
    let source := Source.ofBody "\ta # b\x07\r\n\"c\t\""
    source.lex.1 = none ∧ InComment source.lex.2.tokens.toList "\ta # b".toList '\x07' := by
  intro source
  have clean : source.lex.1 = none := by decide +kernel
  have finished : source.lex = (none, source.lex.2) := by rw [← clean]
  have whole : source.chars = "\ta # b".toList ++ '\x07' :: "\r\n\"c\t\"".toList := by decide
  exact ⟨clean, (Source.controls_inComment finished).1 _ _ _ whole (by decide)⟩

/-- A source that is one comment with a control character is read without an error. -/
theorem Source.control_passes :
    let source := Source.ofBody "#\x01"
    source.lex.1 = none ∧ ∃ c ∈ source.chars, IsControl c := by
  intro source
  exact ⟨by decide +kernel, '\x01', by decide, by decide⟩

end GraphQL
