import GraphQL.Lexical.Scan
import GraphQL.Proofs.Lines

/-!
Offsets and positions. Offsets cut a text at its boundaries. A cursor moves by one character
at a time and remembers no more than whether the last one was a carriage return, and yet it
agrees with the position that is counted from the start of the text. It may also jump over
several characters, where no line ends in between.
-/

namespace GraphQL

theorem byteLength_append (left right : List Char) :
    byteLength (left ++ right) = byteLength left + byteLength right := by
  induction left with
  | nil => simp [byteLength]
  | cons c rest ih => simp only [List.cons_append, byteLength, ih, Nat.add_assoc]

theorem byteLength_pos {text : List Char} (nonempty : text ≠ []) : 0 < byteLength text := by
  obtain ⟨c, rest, rfl⟩ := List.exists_cons_of_ne_nil nonempty
  have positive := c.utf8Size_pos
  simp only [byteLength]
  omega

theorem takeBytes_append (behind ahead : List Char) :
    takeBytes (byteLength behind) (behind ++ ahead) = behind := by
  induction behind with
  | nil =>
      cases ahead with
      | nil => rfl
      | cons c rest =>
          have positive := c.utf8Size_pos
          simp only [byteLength, List.nil_append, takeBytes]
          rw [if_neg (by omega)]
  | cons c rest ih =>
      simp only [byteLength, List.cons_append, takeBytes]
      rw [if_pos (Nat.le_add_right _ _), Nat.add_sub_cancel_left, ih]

theorem splitBytes_append (behind ahead : List Char) :
    splitBytes? (byteLength behind) (behind ++ ahead) = some (behind, ahead) := by
  induction behind with
  | nil => simp only [byteLength, splitBytes?, List.nil_append]
  | cons c rest ih =>
      have positive := c.utf8Size_pos
      obtain ⟨bytes, same⟩ : ∃ bytes, byteLength (c :: rest) = bytes + 1 :=
        ⟨byteLength (c :: rest) - 1, by simp only [byteLength]; omega⟩
      have left : bytes + 1 - c.utf8Size = byteLength rest := by
        rw [← same, byteLength, Nat.add_sub_cancel_left]
      have fits : c.utf8Size ≤ bytes + 1 := by
        rw [← same, byteLength]
        exact Nat.le_add_right _ _
      rw [same, List.cons_append, splitBytes?, if_pos fits, left, ih]
      rfl

namespace Source

variable {source : Source} {behind : List Char}

theorem locationOf_byteLength {ahead : List Char} (whole : source.chars = behind ++ ahead) :
    source.locationOf (byteLength behind) = Position.start.after behind := by
  rw [locationOf, whole, takeBytes_append]

theorem slice_between {text ahead : List Char} (whole : source.chars = behind ++ (text ++ ahead)) :
    source.slice? (byteLength behind) (byteLength (behind ++ text)) =
      some (String.ofList text) := by
  have ordered : byteLength behind ≤ byteLength (behind ++ text) := by
    rw [byteLength_append]
    exact Nat.le_add_right _ _
  have between : byteLength (behind ++ text) - byteLength behind = byteLength text := by
    rw [byteLength_append, Nat.add_sub_cancel_left]
  rw [slice?, if_pos ordered, whole, splitBytes_append, between]
  simp only [Option.bind_eq_bind, Option.bind_some, splitBytes_append]
  rfl

theorem slice_start (source : Source) : source.slice? 0 0 = some "" :=
  slice_between (List.nil_append (([] : List Char) ++ source.chars)).symm

end Source

namespace Cursor

variable {here : Cursor}

theorem advance_append (here : Cursor) (first second : List Char) :
    here.advance (first ++ second) = (here.advance first).advance second :=
  List.foldl_append

theorem offset_advance (here : Cursor) (text : List Char) :
    (here.advance text).offset = here.offset + byteLength text := by
  induction text generalizing here with
  | nil => rfl
  | cons c rest ih =>
      have first : (here.next c).offset = here.offset + c.utf8Size := rfl
      show ((here.next c).advance rest).offset = _
      rw [ih, first, byteLength, Nat.add_assoc]

theorem advance_forget {text : List Char} (noFeed : text.head? ≠ some '\n') (here : Cursor) :
    (here.advance text).position = ({ here with afterReturn := false }.advance text).position := by
  cases text with
  | nil => rfl
  | cons c rest =>
      have other : c ≠ '\n' := fun same => noFeed (by rw [same]; rfl)
      have same : here.next c = { here with afterReturn := false }.next c := by
        simp [next, other]
      show ((here.next c).advance rest).position = _
      rw [same]
      rfl

/-- A cursor that has no line feed to wait for goes to the position that the text leads to. -/
theorem position_advance {here : Cursor} (text : List Char) (fresh : here.afterReturn = false) :
    (here.advance text).position = here.position.after text := by
  generalize at' : here.position = position
  fun_induction Position.after position text generalizing here with
  | case1 position => exact at'
  | case2 position rest ih =>
      have both : (here.next '\r').next '\n' =
          ⟨here.offset + 2, position.nextLine, false⟩ := by
        simp [next, fresh, at', isLineBreak]
        rfl
      exact @ih ((here.next '\r').next '\n') (by rw [both]) (by rw [both])
  | case3 position c rest single breaks ih =>
      have moved : (here.next c).position = position.nextLine := by
        simp [next, fresh, at', breaks]
      have noFeed : (here.next c).afterReturn = true → rest.head? ≠ some '\n' := by
        intro isReturn feed
        obtain ⟨tail, rfl⟩ := List.head?_eq_some_iff.mp feed
        exact single tail (by simpa [next] using isReturn) rfl
      show ((here.next c).advance rest).position = _
      cases marked : (here.next c).afterReturn with
      | false => exact ih marked moved
      | true =>
          rw [advance_forget (noFeed marked)]
          exact ih rfl moved
  | case4 position c rest _ same ih =>
      have plain : c ≠ '\n' ∧ c ≠ '\r' := by
        simpa [isLineBreak] using same
      exact @ih (here.next c) (by simp [next, plain]) (by simp [next, at', same, plain])

def jump (here : Cursor) (text : List Char) : Cursor :=
  ⟨here.offset + byteLength text, ⟨here.position.line, here.position.column + text.length⟩, false⟩

/-- Where no line ends, it makes no difference whether the characters are taken one by one. -/
theorem advance_eq_jump {text : List Char} (nonempty : text ≠ [])
    (sameLine : ∀ c ∈ text, isLineBreak c = false) (here : Cursor) :
    here.advance text = here.jump text := by
  induction text generalizing here with
  | nil => exact absurd rfl nonempty
  | cons c rest ih =>
      have plain := sameLine c List.mem_cons_self
      have single : here.next c = here.jump [c] := by
        have other : c ≠ '\n' ∧ c ≠ '\r' := by
          simpa [isLineBreak] using plain
        simp [next, jump, plain, other, byteLength, Position.nextColumn]
      cases rest with
      | nil => exact single
      | cons d others =>
          have behind := ih (List.cons_ne_nil _ _)
            (fun e member => sameLine e (List.mem_cons_of_mem c member)) (here.next c)
          show (here.next c).advance (d :: others) = _
          rw [behind, single]
          simp only [jump, byteLength, List.length_cons, List.length_nil]
          congr 1
          · omega
          · congr 1
            omega

theorem position_onLine {text : List Char} (sameLine : ∀ c ∈ text, isLineBreak c = false)
    (here : Cursor) :
    (here.advance text).position = ⟨here.position.line, here.position.column + text.length⟩ := by
  by_cases empty : text = []
  · rw [empty]
    rfl
  · rw [advance_eq_jump empty sameLine]
    rfl

/-- Going over a text by single characters and by jumps in which no line ends. -/
inductive Walk : Cursor → List Char → Cursor → Prop
  | stay {here : Cursor} : Walk here [] here
  | step {here there : Cursor} {rest : List Char} (c : Char)
      (onward : Walk (here.next c) rest there) : Walk here (c :: rest) there
  | jump {here there : Cursor} {text rest : List Char} (nonempty : text ≠ [])
      (sameLine : ∀ c ∈ text, isLineBreak c = false) (onward : Walk (here.jump text) rest there) :
      Walk here (text ++ rest) there

/-- All ways over a text lead to the same cursor. -/
theorem Walk.eq_advance {here there : Cursor} {text : List Char} (walk : Walk here text there) :
    there = here.advance text := by
  induction walk with
  | stay => rfl
  | step c _ ih => exact ih
  | jump nonempty sameLine _ ih => rw [advance_append, advance_eq_jump nonempty sameLine, ih]

end Cursor

end GraphQL
