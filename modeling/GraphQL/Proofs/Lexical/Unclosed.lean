import GraphQL.Proofs.Lexical.Clean
import GraphQL.Proofs.Lexical.Faults

/-!
Strings that break off. A quoted string does where its line ends or where its text does, and a block
string only where its text does. Up to there stands what a string may hold. A quoted string can also
break off inside an escape, of which only the backslash is there.
-/

namespace GraphQL.Lexical

open BlockString (delimiter)

/-- What a block string may hold, as long as it is not closed. -/
inductive Unclosed : List Char → Prop
  | nil : Unclosed []
  | quotes {inner : List Char} (behind : Unclosed inner) : Unclosed ('\\' :: (delimiter ++ inner))
  | char {c : Char} {inner : List Char} (notClosed : ¬delimiter <+: c :: inner)
      (unescaped : ¬('\\' :: delimiter) <+: c :: inner) (allowed : isForbidden c = false)
      (behind : Unclosed inner) : Unclosed (c :: inner)

/-- A quoted string with a backslash that nothing follows. -/
def Dangles (literal : List Char) : Prop :=
  ∃ inner value, literal = '"' :: (inner ++ ['\\']) ∧ Quotes inner value

/-- A string that is begun and not closed, and what stands behind it. -/
inductive BreaksOff : (literal after : List Char) → Prop
  | quoted {inner value after : List Char} (quotes : Quotes inner value)
      (ends : Halts (fun c => !isLineBreak c) after) : BreaksOff ('"' :: inner) after
  | escape {literal : List Char} (dangles : Dangles literal) : BreaksOff literal []
  | block {inner : List Char} (unclosed : Unclosed inner) : BreaksOff (delimiter ++ inner) []

/-! Only a backslash alone makes a string dangle. -/

theorem Quotes.not_dangling {inner front value before : List Char} (quotes : Quotes inner value)
    (cut : Quotes front before) : inner ≠ front ++ ['\\'] := by
  rintro rfl
  have whole := quotes.quotedBody_append []
  have dangling := cut.quotedBody_append ['\\']
  rw [List.append_nil, dangling] at whole
  cases congrArg Reading.outcome whole

theorem not_dangles_quoted {inner value : List Char} (quotes : Quotes inner value) :
    ¬Dangles ('"' :: inner) := by
  rintro ⟨front, before, same, cut⟩
  exact quotes.not_dangling cut (List.cons.inj same).2

theorem not_dangles_block (inner : List Char) : ¬Dangles (delimiter ++ inner) := by
  rintro ⟨front, before, same, cut⟩
  have begins : '"' :: '"' :: inner = front ++ ['\\'] := (List.cons.inj same).2
  cases cut with
  | nil => cases begins
  | plain unquoted _ _ _ => exact unquoted (List.cons.inj begins).1.symm
  | escape _ _ => cases begins

/-! Where reading a string finds that it breaks off. -/

theorem escape_unterminated {text : List Char} {fault : Fault} (failed : escape text = .error fault)
    (kind : fault.kind = .unterminatedString) : fault = .danglingEscape := by
  revert failed
  fun_cases escape text <;> intro failed
  case case1 =>
    cases failed
    rfl
  case case11 | case13 | case14 =>
    cases failed
    cases kind
  all_goals cases failed

theorem quotedBody_breaksOff {skip : Nat} {text : List Char} {fault : Fault}
    (skipped : skip ≤ text.length) (failed : (quotedBody skip text).outcome = .error fault)
    (kind : fault.kind = .unterminatedString) :
    ∃ inner value after, text.drop skip = inner ++ after ∧ Quotes inner value ∧
      (quotedBody skip text).size = skip + inner.length ∧
      (fault = .unterminated ∧ Halts (fun c => !isLineBreak c) after ∨
        fault = .danglingEscape ∧ after = ['\\']) := by
  fun_induction quotedBody skip text with
  | case1 skip =>
      obtain rfl := Nat.le_zero.mp skipped
      cases failed
      exact ⟨[], [], [], rfl, .nil, rfl, .inl ⟨rfl, halts_nil⟩⟩
  | case2 skip c rest ih =>
      obtain ⟨inner, value, after, same, quotes, taken, ends⟩ :=
        ih (Nat.le_of_succ_le_succ skipped) failed
      refine ⟨inner, value, after, same, quotes, ?_, ends⟩
      simp only [Reading.behind, taken]
      omega
  | case3 => cases failed
  | case4 c rest _ breaks =>
      cases failed
      exact ⟨[], [], c :: rest, rfl, .nil, rfl, .inl ⟨rfl, halts_cons (by simp [breaks])⟩⟩
  | case5 rest found size decoded quote breaks ih =>
      obtain ⟨word, left, rfl, length, escapes⟩ := escapes_of_escape decoded
      obtain rfl : size = word.length := length
      obtain ⟨inner, value, after, same, quotes, taken, ends⟩ :=
        ih (by simp) (Reading.outcome_map_error failed)
      rw [List.drop_left] at same
      refine ⟨'\\' :: (word ++ inner), _, after, ?_, .escape escapes quotes, ?_, ends⟩
      · rw [List.drop_zero, same, List.cons_append, List.append_assoc]
      · simp only [Reading.behind, Reading.map, taken, List.length_cons, List.length_append]
        omega
  | case6 rest fault' decoded quote breaks =>
      obtain rfl : fault' = fault := Except.error.inj failed
      obtain rfl := escape_unterminated decoded kind
      obtain rfl := escape_dangling decoded
      exact ⟨[], [], ['\\'], rfl, .nil, rfl, .inr ⟨rfl, rfl⟩⟩
  | case7 =>
      cases failed
      cases kind
  | case8 c rest quote breaks slash allowed ih =>
      obtain ⟨inner, value, after, same, quotes, taken, ends⟩ :=
        ih (Nat.zero_le _) (Reading.outcome_map_error failed)
      rw [List.drop_zero] at same
      refine ⟨c :: inner, _, after, by rw [same]; rfl, .plain quote slash ?_ quotes, ?_, ends⟩
      · exact (allowed_iff c).mpr ⟨by simpa using breaks, by simpa using allowed⟩
      · simp only [Reading.behind, Reading.map, taken, List.length_cons]
        omega

theorem Unclosed.single {c : Char} {rest : List Char}
    (noQuotes : ∀ tail, c = '"' → rest = '"' :: '"' :: tail → False)
    (noEscape : ∀ tail, c = '\\' → rest = '"' :: '"' :: '"' :: tail → False)
    (allowed : isForbidden c = false) (unclosed : Unclosed rest) : Unclosed (c :: rest) := by
  refine .char ?_ ?_ allowed unclosed
  · rintro ⟨tail, same⟩
    obtain ⟨quote, behind⟩ := List.cons.inj same
    exact noQuotes tail quote.symm behind.symm
  · rintro ⟨tail, same⟩
    obtain ⟨slash, behind⟩ := List.cons.inj same
    exact noEscape tail slash.symm behind.symm

theorem blockBody_breaksOff {text : List Char} {fault : Fault}
    (failed : (blockBody text).outcome = .error fault) (kind : fault.kind = .unterminatedString) :
    Unclosed text ∧ (blockBody text).size = text.length ∧ fault = .unterminated := by
  fun_induction blockBody text with
  | case1 =>
      cases failed
      exact ⟨.nil, rfl, rfl⟩
  | case2 => cases failed
  | case3 rest ih =>
      obtain ⟨unclosed, size, same⟩ := ih (Reading.outcome_map_error failed)
      refine ⟨.quotes unclosed, ?_, same⟩
      simp only [Reading.behind, Reading.map, size, List.length_cons]
      omega
  | case4 rest ih =>
      obtain ⟨unclosed, size, same⟩ := ih (Reading.outcome_map_error failed)
      have feed : Unclosed ('\n' :: rest) := .single (by simp) (by simp) (by decide) unclosed
      refine ⟨.single (by simp) (by simp) (by decide) feed, ?_, same⟩
      simp only [Reading.behind, Reading.map, size, List.length_cons]
      omega
  | case5 c rest noQuotes noEscape noPair breaks ih =>
      obtain ⟨unclosed, size, same⟩ := ih (Reading.outcome_map_error failed)
      refine ⟨.single noQuotes noEscape (allowed_break breaks) unclosed, ?_, same⟩
      simp only [Reading.behind, Reading.map, size, List.length_cons]
      omega
  | case6 =>
      cases failed
      cases kind
  | case7 c rest noQuotes noEscape noPair sameLine allowed ih =>
      obtain ⟨unclosed, size, same⟩ := ih (Reading.outcome_map_error failed)
      refine ⟨.single noQuotes noEscape (by simpa using allowed) unclosed, ?_, same⟩
      simp only [Reading.behind, Reading.map, size, List.length_cons]
      omega

/-- The place in a broken string where reading stops. Of a string that dangles, the backslash is
left. -/
inductive StopsIn (literal : List Char) (size : Nat) : Fault → Prop
  | whole (broken : ¬Dangles literal) (taken : size = literal.length) :
      StopsIn literal size .unterminated
  | dangling (dangles : Dangles literal) (taken : size + 1 = literal.length) :
      StopsIn literal size .danglingEscape

/-- A lexeme that is an unterminated string is one that breaks off. -/
theorem lexeme_breaksOff {text : List Char} {fault : Fault}
    (failed : (lexeme text).outcome = .error fault) (kind : fault.kind = .unterminatedString) :
    ∃ literal after, text = literal ++ after ∧ BreaksOff literal after ∧
      StopsIn literal (lexeme text).size fault := by
  by_cases triple : delimiter <+: text
  · obtain ⟨inner, rfl⟩ := triple
    rw [lexeme_delimiter] at failed ⊢
    obtain ⟨unclosed, size, rfl⟩ := blockBody_breaksOff (Reading.outcome_map_error failed) kind
    refine ⟨_, [], (List.append_nil _).symm, .block unclosed, .whole (not_dangles_block inner) ?_⟩
    simp only [Reading.behind, Reading.map, size, List.length_append]
    rfl
  · obtain ⟨rest, rfl⟩ := quote_of_unterminated failed kind
    have single : ∀ tail, rest = '"' :: '"' :: tail → False := by
      rintro tail rfl
      exact triple ⟨tail, rfl⟩
    rw [lexeme_quoted single] at failed ⊢
    obtain ⟨inner, value, after, rfl, quotes, taken, ends⟩ :=
      quotedBody_breaksOff (Nat.zero_le _) (Reading.outcome_map_error failed) kind
    rcases ends with ⟨rfl, ends⟩ | ⟨rfl, rfl⟩
    · refine ⟨'"' :: inner, after, rfl, .quoted quotes ends, .whole (not_dangles_quoted quotes) ?_⟩
      simp only [Reading.behind, Reading.map, taken, List.length_cons]
      omega
    · have dangles : Dangles ('"' :: (inner ++ ['\\'])) := ⟨inner, value, rfl, quotes⟩
      refine ⟨_, [], (List.append_nil _).symm, .escape dangles, .dangling dangles ?_⟩
      simp only [Reading.behind, Reading.map, taken, List.length_cons, List.length_append,
        List.length_nil]
      omega

end GraphQL.Lexical
