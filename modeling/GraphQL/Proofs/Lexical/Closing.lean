import GraphQL.Proofs.Lexical.Block
import GraphQL.Proofs.Lexical.Quotes

/-!
Where strings end. A quoted string, whether or not it is closed, takes no line break. The body of a
block string takes the same characters whatever follows it.
-/

namespace GraphQL.Lexical

open BlockString (delimiter)

def OnLine (text : List Char) : Prop := ∀ c ∈ text, isLineBreak c = false

theorem onLine_nil : OnLine [] := by simp [OnLine]

theorem onLine_cons {c : Char} {text : List Char} :
    OnLine (c :: text) ↔ isLineBreak c = false ∧ OnLine text := List.forall_mem_cons

theorem onLine_append {left right : List Char} :
    OnLine (left ++ right) ↔ OnLine left ∧ OnLine right := List.forall_mem_append

theorem not_isLineBreak_of_value {c : Char} {value : Nat} (isDigit : Hex.value? c = some value) :
    isLineBreak c = false := by
  simp only [isLineBreak, Bool.or_eq_false_iff, beq_eq_false_iff_ne]
  constructor <;> rintro rfl <;> exact absurd (Option.isSome_of_eq_some isDigit) (by decide)

theorem Escapes.onLine {word : List Char} {c : Char} (escapes : Escapes word c) :
    OnLine word := by
  have marks : ∀ d ∈ escapeMarks, isLineBreak d = false := by simp [escapeMarks, isLineBreak]
  intro d member
  rcases escapes.mark_or_digit member with mark | ⟨value, known⟩
  · exact marks d mark
  · exact not_isLineBreak_of_value known

theorem quotedBody_onLine {skip : Nat} {text : List Char} (skipped : OnLine (text.take skip)) :
    OnLine (text.take (quotedBody skip text).size) := by
  fun_induction quotedBody skip text with
  | case1 => exact onLine_nil
  | case2 skip c rest ih =>
      rw [List.take_succ_cons, onLine_cons] at skipped
      rw [Reading.behind, Nat.add_comm, List.take_succ_cons, onLine_cons]
      exact ⟨skipped.1, ih skipped.2⟩
  | case3 rest => simp [Reading.done, OnLine, isLineBreak]
  | case4 => exact onLine_nil
  | case5 rest found size decoded quote breaks ih =>
      obtain ⟨word, left, rfl, length, escapes⟩ := escapes_of_escape decoded
      have taken : (word ++ left).take size = word := by
        rw [show size = word.length from length, List.take_left]
      rw [Reading.behind, Nat.add_comm, List.take_succ_cons, onLine_cons]
      exact ⟨by decide, ih (by rw [taken]; exact escapes.onLine)⟩
  | case6 => exact onLine_nil
  | case7 => exact onLine_nil
  | case8 c rest quote breaks slash allowed ih =>
      rw [Reading.behind, Nat.add_comm, List.take_succ_cons, onLine_cons]
      exact ⟨by simpa using breaks, ih onLine_nil⟩

theorem begins_alike (front : List Char) {inner left tail : List Char} (short : front.length ≤ 3)
    (begins : inner ++ (delimiter ++ left) = front ++ tail) (other : List Char) :
    ∃ tail, inner ++ (delimiter ++ other) = front ++ tail := by
  have inside : front <+: inner ++ delimiter := by
    refine List.prefix_of_prefix_length_le ⟨tail, begins.symm⟩ ⟨left, List.append_assoc _ _ _⟩ ?_
    simp only [List.length_append, delimiter, List.length_cons, List.length_nil]
    omega
  obtain ⟨middle, same⟩ := inside
  exact ⟨middle ++ other, by rw [← List.append_assoc, ← same, List.append_assoc]⟩

theorem blockBody_single {c : Char} {inner left : List Char}
    (noQuotes : ∀ tail, c = '"' → inner ++ (delimiter ++ left) = '"' :: '"' :: tail → False)
    (noEscape : ∀ tail, c = '\\' → inner ++ (delimiter ++ left) = '"' :: '"' :: '"' :: tail → False)
    (noPair : ∀ tail, c = '\r' → inner ++ (delimiter ++ left) = '\n' :: tail → False)
    (other : List Char) :
    blockBody (c :: (inner ++ (delimiter ++ other))) =
      if isLineBreak c then
        ((blockBody (inner ++ (delimiter ++ other))).map ([] :: ·)).behind 1
      else if isForbidden c then .fail (.forbiddenCharacter c)
      else ((blockBody (inner ++ (delimiter ++ other))).map (prepend [c])).behind 1 := by
  rw [blockBody]
  · intro tail quote same
    obtain ⟨_, begins⟩ := begins_alike ['"', '"'] (by decide) same left
    exact noQuotes _ quote begins
  · intro tail slash same
    obtain ⟨_, begins⟩ := begins_alike ['"', '"', '"'] (by decide) same left
    exact noEscape _ slash begins
  · intro tail isReturn same
    obtain ⟨_, begins⟩ := begins_alike ['\n'] (by decide) same left
    exact noPair _ isReturn begins

/-- A block string ends at its closing quotes, whatever follows them. -/
theorem blockBody_ok {text : List Char} {lines : List (List Char)}
    (read : (blockBody text).outcome = .ok lines) :
    ∃ inner rest, text = inner ++ (delimiter ++ rest) ∧
      ∀ other, blockBody (inner ++ (delimiter ++ other)) = .done (inner.length + 3) lines := by
  fun_induction blockBody text generalizing lines with
  | case1 => cases read
  | case2 rest =>
      cases read
      exact ⟨[], rest, rfl, blockBody_delimiter⟩
  | case3 rest ih =>
      obtain ⟨tail, body, rfl⟩ := Reading.outcome_map read
      obtain ⟨inner, left, rfl, alone⟩ := ih body
      refine ⟨'\\' :: '"' :: '"' :: '"' :: inner, left, rfl, fun other => ?_⟩
      simp only [List.cons_append, blockBody, alone, Reading.map_done, Reading.behind_done,
        List.length_cons]
      congr 1
      omega
  | case4 rest ih =>
      obtain ⟨tail, body, rfl⟩ := Reading.outcome_map read
      obtain ⟨inner, left, rfl, alone⟩ := ih body
      refine ⟨'\r' :: '\n' :: inner, left, rfl, fun other => ?_⟩
      simp only [List.cons_append, blockBody, alone, Reading.map_done, Reading.behind_done,
        List.length_cons]
      congr 1
      omega
  | case5 c rest noQuotes noEscape noPair breaks ih =>
      obtain ⟨tail, body, rfl⟩ := Reading.outcome_map read
      obtain ⟨inner, left, rfl, alone⟩ := ih body
      refine ⟨c :: inner, left, rfl, fun other => ?_⟩
      rw [List.cons_append, blockBody_single noQuotes noEscape noPair, if_pos breaks, alone,
        Reading.map_done, Reading.behind_done, Nat.add_comm]
      rfl
  | case6 => cases read
  | case7 c rest noQuotes noEscape noPair sameLine allowed ih =>
      obtain ⟨tail, body, rfl⟩ := Reading.outcome_map read
      obtain ⟨inner, left, rfl, alone⟩ := ih body
      refine ⟨c :: inner, left, rfl, fun other => ?_⟩
      rw [List.cons_append, blockBody_single noQuotes noEscape noPair, if_neg sameLine,
        if_neg allowed, alone, Reading.map_done, Reading.behind_done, Nat.add_comm]
      rfl

end GraphQL.Lexical
