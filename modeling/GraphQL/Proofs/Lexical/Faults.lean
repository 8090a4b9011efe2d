import GraphQL.Proofs.Lexical.NumberGrammar
import GraphQL.Proofs.Lexical.Slice
import GraphQL.Proofs.Places

/-!
Where readings stop. Whether or not a lexeme is read, the text is never cut inside a break of a
line. Only at the end of a text does a fault stand behind the place where its reading stops.
-/

namespace GraphQL.Lexical

open BlockString (delimiter)

theorem apart_append {front rest : List Char} {size : Nat} (apart : ¬PartsReturn front rest)
    (inside : ¬PartsReturn (rest.take size) (rest.drop size)) :
    ¬PartsReturn (front ++ rest.take size) (rest.drop size) := by
  rintro ⟨isReturn, isFeed⟩
  by_cases none : rest.take size = []
  · rw [none, List.append_nil] at isReturn
    apply apart ⟨isReturn, _⟩
    rcases List.take_eq_nil_iff.mp none with rfl | rfl
    · exact isFeed
    · rw [List.drop_nil] at isFeed
      exact isFeed
  · rw [List.getLast?_append_of_ne_nil _ none] at isReturn
    exact inside ⟨isReturn, isFeed⟩

theorem apart_behind (front : List Char) {rest : List Char} {size : Nat}
    (apart : ¬PartsReturn front rest)
    (inside : ¬PartsReturn (rest.take size) (rest.drop size)) :
    ¬PartsReturn ((front ++ rest).take (front.length + size))
      ((front ++ rest).drop (front.length + size)) := by
  rw [List.take_length_add_append, List.drop_length_add_append]
  exact apart_append apart inside

theorem blockBody_apart (text : List Char) :
    ¬PartsReturn (text.take (blockBody text).size) (text.drop (blockBody text).size) := by
  fun_induction blockBody text with
  | case1 => rintro ⟨⟨⟩, _⟩
  | case2 rest =>
      rintro ⟨isReturn, _⟩
      simp [Reading.done] at isReturn
  | case3 rest ih => exact apart_behind ['\\', '"', '"', '"'] (by rintro ⟨⟨⟩, _⟩) ih
  | case4 rest ih => exact apart_behind ['\r', '\n'] (by rintro ⟨⟨⟩, _⟩) ih
  | case5 c rest noQuotes noEscape noPair breaks ih =>
      apply apart_behind [c] _ ih
      rintro ⟨isReturn, isFeed⟩
      obtain ⟨behind, rfl⟩ := List.head?_eq_some_iff.mp isFeed
      exact noPair behind (Option.some.inj isReturn) rfl
  | case6 => rintro ⟨⟨⟩, _⟩
  | case7 c rest noQuotes noEscape noPair sameLine allowed ih =>
      apply apart_behind [c] _ ih
      rintro ⟨isReturn, _⟩
      obtain rfl : c = '\r' := Option.some.inj isReturn
      exact sameLine (by decide)

theorem OnLine.apart {taken : List Char} (onLine : OnLine taken) (after : List Char) :
    ¬PartsReturn taken after := by
  rintro ⟨isReturn, _⟩
  have sameLine := onLine '\r' (List.mem_of_getLast? isReturn)
  cases sameLine

/-- No reading stops inside a break. -/
theorem lexeme_apart (text : List Char) :
    ¬PartsReturn (text.take (lexeme text).size) (text.drop (lexeme text).size) := by
  by_cases triple : delimiter <+: text
  · obtain ⟨rest, rfl⟩ := triple
    rw [lexeme_delimiter]
    exact apart_behind delimiter (by rintro ⟨⟨⟩, _⟩) (blockBody_apart rest)
  · exact (lexeme_onLine triple).apart _

/-! Faults behind the place where a reading stops. -/

theorem escape_dangling {text : List Char} (failed : escape text = .error .danglingEscape) :
    text = [] := by
  revert failed
  fun_cases escape text <;> intro failed
  case case1 => rfl
  all_goals cases failed

theorem quotedBody_dangling {skip : Nat} {text : List Char}
    (failed : (quotedBody skip text).outcome = .error .danglingEscape) :
    text.drop (quotedBody skip text).size = ['\\'] := by
  fun_induction quotedBody skip text with
  | case1 => cases failed
  | case2 skip c rest ih =>
      rw [Reading.behind, Nat.add_comm]
      exact ih failed
  | case3 rest => cases failed
  | case4 => cases failed
  | case5 rest found size decoded quote breaks ih =>
      rw [Reading.behind, Nat.add_comm]
      exact ih (Reading.outcome_map_error failed)
  | case6 rest fault decoded quote breaks =>
      obtain rfl : fault = .danglingEscape := Except.error.inj failed
      rw [escape_dangling decoded]
      rfl
  | case7 => cases failed
  | case8 c rest quote breaks slash allowed ih =>
      rw [Reading.behind, Nat.add_comm]
      exact ih (Reading.outcome_map_error failed)

theorem blockBody_not_dangling {text : List Char} :
    (blockBody text).outcome ≠ .error .danglingEscape := by
  intro failed
  fun_induction blockBody text with
  | case1 | case2 | case6 => cases failed
  | case3 rest ih | case4 rest ih => exact ih (Reading.outcome_map_error failed)
  | case5 c rest _ _ _ _ ih | case7 c rest _ _ _ _ _ ih =>
      exact ih (Reading.outcome_map_error failed)

theorem quote_of_unterminated {text : List Char} {fault : Fault}
    (failed : (lexeme text).outcome = .error fault) (kind : fault.kind = .unterminatedString) :
    ∃ rest, text = '"' :: rest := by
  revert failed
  fun_cases lexeme text with
  | case4 rest _ =>
      intro failed
      unfold spread at failed
      split at failed <;> cases failed <;> cases kind
  | case5 rest _ => exact fun _ => ⟨rest, rfl⟩
  | case7 c rest _ _ _ _ _ _ =>
      intro failed
      rw [number_refuses _ _ failed] at kind
      cases kind
  | case1 | case2 | case3 | case6 => rintro ⟨⟩
  | case8 | case9 =>
      rintro ⟨⟩
      cases kind

theorem lexeme_dangling {text : List Char}
    (failed : (lexeme text).outcome = .error .danglingEscape) :
    text.drop (lexeme text).size = ['\\'] := by
  by_cases triple : delimiter <+: text
  · obtain ⟨rest, rfl⟩ := triple
    rw [lexeme_delimiter] at failed
    exact absurd (Reading.outcome_map_error failed) blockBody_not_dangling
  · obtain ⟨rest, rfl⟩ := quote_of_unterminated failed rfl
    have single : ∀ tail, rest = '"' :: '"' :: tail → False := by
      rintro tail rfl
      exact triple ⟨tail, rfl⟩
    rw [lexeme_quoted single] at failed ⊢
    rw [Reading.behind, Nat.add_comm]
    exact quotedBody_dangling (Reading.outcome_map_error failed)

end GraphQL.Lexical
