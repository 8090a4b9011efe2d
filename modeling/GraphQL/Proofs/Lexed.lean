import GraphQL.Lexer
import GraphQL.Proofs.Lexical.Lexeme
import GraphQL.TokenStream

/-!
Which lexemes a text has, comments included. The relation follows one lexeme at a time; the
stream of a source and its lexer both give what it says, token by token.
-/

namespace GraphQL

open Lexical (Stops lexeme)

/-- The lexemes of a text that can be read to its end. -/
inductive Lexed : List Char → List Lexeme → Prop
  | finish {text : List Char} (blank : text.dropWhile Scan.isIgnored = []) : Lexed text []
  | token {text : List Char} {size : Nat} {found : Lexeme} {tail : List Lexeme}
      (read : lexeme (text.dropWhile Scan.isIgnored) = .done size found) (more : found ≠ .eof)
      (behind : Lexed ((text.dropWhile Scan.isIgnored).drop size) tail) : Lexed text (found :: tail)

namespace Lexed

theorem nil : Lexed [] [] := finish rfl

theorem unique {text : List Char} {left right : List Lexeme} (first : Lexed text left)
    (second : Lexed text right) : left = right := by
  induction first generalizing right with
  | finish blank =>
      cases second with
      | finish => rfl
      | token read more =>
          rw [blank] at read
          cases read
          exact absurd rfl more
  | token read more _ ih =>
      cases second with
      | finish blank =>
          rw [blank] at read
          cases read
          exact absurd rfl more
      | token other _ behind =>
          rw [read] at other
          cases other
          rw [ih behind]

theorem ignore {c : Char} (ignored : Scan.isIgnored c = true) {text : List Char}
    {lexemes : List Lexeme} (lexed : Lexed text lexemes) : Lexed (c :: text) lexemes := by
  have skipped : (c :: text).dropWhile Scan.isIgnored = text.dropWhile Scan.isIgnored :=
    List.dropWhile_cons_of_pos ignored
  cases lexed with
  | finish blank => exact finish (skipped.trans blank)
  | token read more behind =>
      rw [← skipped] at read behind
      exact token read more behind

theorem ignoreAll {between : List Char} (ignored : ∀ c ∈ between, Scan.isIgnored c = true)
    {text : List Char} {lexemes : List Lexeme} (lexed : Lexed text lexemes) :
    Lexed (between ++ text) lexemes := by
  induction between with
  | nil => exact lexed
  | cons c rest ih =>
      have tail := ih fun d member => ignored d (List.mem_cons_of_mem c member)
      exact ignore (ignored c List.mem_cons_self) tail

theorem cons {text rest : List Char} {found : Lexeme} {lexemes : List Lexeme}
    (begins : ∃ c more, text = c :: more ∧ Scan.isIgnored c = false)
    (read : lexeme (text ++ rest) = .done text.length found) (more : found ≠ .eof)
    (lexed : Lexed rest lexemes) : Lexed (text ++ rest) (found :: lexemes) := by
  obtain ⟨c, others, rfl, keeps⟩ := begins
  have kept : ((c :: others) ++ rest).dropWhile Scan.isIgnored = (c :: others) ++ rest :=
    List.dropWhile_cons_of_neg (by simp [keeps])
  refine token (by rw [kept]; exact read) more ?_
  rwa [kept, List.drop_left]

theorem written {found : Lexeme} (proper : found.isProper = true) (width : Nat)
    {rest : List Char} {lexemes : List Lexeme} (stops : Stops rest)
    (lexed : Lexed rest lexemes) :
    Lexed (indentBy width found.written ++ rest) (found :: lexemes) := by
  have read := Lexeme.lexeme_written proper width stops
  refine cons ?_ read ?_ lexed
  · obtain ⟨c, more, same, keeps⟩ := Lexeme.written_begins proper
    have head := head_indentBy width found.written
    rw [same] at head ⊢
    cases indented : indentBy width (c :: more) with
    | nil =>
        rw [indented] at head
        cases head
    | cons d others =>
        rw [indented] at head
        obtain rfl : d = c := by simpa using head
        exact ⟨d, others, rfl, keeps⟩
  · rintro rfl
    cases proper

theorem mark (mark : Punctuator) {rest : List Char} {lexemes : List Lexeme}
    (lexed : Lexed rest lexemes) :
    Lexed (mark.text.toList ++ rest) (.punctuator mark :: lexemes) := by
  have begins : ∃ c more, (Lexeme.punctuator mark).written = c :: more ∧
      Scan.isIgnored c = false := Lexeme.written_begins rfl
  refine cons begins ?_ (by simp) lexed
  cases mark <;> rfl

theorem proper {text : List Char} {lexemes : List Lexeme} (lexed : Lexed text lexemes) :
    ∀ found ∈ lexemes, found.isProper = true ∨ found.isComment = true := by
  induction lexed with
  | finish => simp
  | @token text size found tail read more behind ih =>
      intro other member
      rcases List.mem_cons.mp member with rfl | later
      · cases ahead : text.dropWhile Scan.isIgnored with
        | nil =>
            rw [ahead] at read
            cases read
            exact absurd rfl more
        | cons c rest =>
            rw [ahead] at read
            have outcome : (lexeme (c :: rest)).outcome = .ok other := by
              rw [read]
              rfl
            exact (Lexical.lexeme_ok outcome).2
      · exact ih other later

end Lexed

end GraphQL
