import GraphQL.Proofs.Cursor

/-!
Places in a text, and the lines and columns that name them. Lines are split off a whole text, while
positions are counted over what stands in front of a place. Both agree wherever the text is not cut
inside the break of a line: the line is there, and it goes on from the column as the text does from
the place.
-/

namespace GraphQL

open Lexical (prepend)

/-- A cut here parts a carriage return from its line feed. -/
def PartsReturn (before after : List Char) : Prop :=
  before.getLast? = some '\r' ∧ after.head? = some '\n'

theorem PartsReturn.cons {before after : List Char} (parts : PartsReturn before after) (c : Char) :
    PartsReturn (c :: before) after := by
  constructor
  · rw [List.getLast?_cons, parts.1]
    rfl
  · exact parts.2

theorem splitLines_eq_empty {text : List Char} (empty : splitLines text = [[]]) : text = [] := by
  have search := splitLines_search text
  rw [empty] at search
  cases text with
  | nil => rfl
  | cons c rest =>
      cases breaks : isLineBreak c <;> simp [breaks] at search
      split at search
      · simp_all
      · exact absurd search (splitLines_ne_nil _)
      · exact absurd search (splitLines_ne_nil _)

theorem sameLine_of_mem_splitLines {text line : List Char} (member : line ∈ splitLines text) :
    ∀ c ∈ line, isLineBreak c = false := by
  induction text using splitLines.induct generalizing line with
  | case1 =>
      obtain rfl : line = [] := by simpa [splitLines] using member
      exact fun c inside => absurd inside List.not_mem_nil
  | case2 rest ih =>
      rcases List.mem_cons.mp member with rfl | behind
      · exact fun c inside => absurd inside List.not_mem_nil
      · exact ih behind
  | case3 c rest unpaired breaks ih =>
      rw [splitLines_break breaks unpaired] at member
      rcases List.mem_cons.mp member with rfl | behind
      · exact fun c inside => absurd inside List.not_mem_nil
      · exact ih behind
  | case4 c rest unpaired sameLine _ ih | case5 c rest unpaired sameLine _ _ _ ih =>
      have plain : isLineBreak c = false := by simpa using sameLine
      obtain ⟨first, others, lines⟩ := List.exists_cons_of_ne_nil (splitLines_ne_nil rest)
      rw [splitLines_plain plain, lines] at member
      rw [lines] at ih
      rcases List.mem_cons.mp member with rfl | behind
      · exact List.forall_mem_cons.mpr ⟨plain, ih List.mem_cons_self⟩
      · exact ih (List.mem_cons_of_mem first behind)

namespace Position

/-- The order in which positions come in a text. -/
def Before (a b : Position) : Prop := a.line < b.line ∨ a.line = b.line ∧ a.column < b.column

theorem Before.trans {a b c : Position} (first : a.Before b) (second : b.Before c) :
    a.Before c := by
  unfold Before at *
  omega

theorem before_nextLine (here : Position) : here.Before here.nextLine :=
  .inl (Nat.lt_succ_self here.line)

theorem before_nextColumn (here : Position) : here.Before here.nextColumn :=
  .inr ⟨rfl, Nat.lt_succ_self here.column⟩

theorem after_break (here : Position) {c : Char} {rest : List Char} (breaks : isLineBreak c = true)
    (unpaired : ∀ behind, c = '\r' → rest = '\n' :: behind → False) :
    here.after (c :: rest) = here.nextLine.after rest := by
  simp only [after, breaks, if_true]

theorem after_plain (here : Position) {c : Char} (sameLine : isLineBreak c = false)
    (rest : List Char) : here.after (c :: rest) = here.nextColumn.after rest := by
  have noReturn : c ≠ '\r' := by
    rintro rfl
    exact absurd sameLine (by decide)
  have unpaired : ∀ behind, c = '\r' → rest = '\n' :: behind → False :=
    fun _ isReturn _ => noReturn isReturn
  simp only [after, sameLine, Bool.false_eq_true, if_false]

theorem Before.onward {here next : Position} {rest : List Char} (first : here.Before next)
    (behind : rest ≠ [] → next.Before (next.after rest)) : here.Before (next.after rest) := by
  by_cases more : rest = []
  · subst more
    exact first
  · exact first.trans (behind more)

theorem before_after (here : Position) {text : List Char} (nonempty : text ≠ []) :
    here.Before (here.after text) := by
  fun_induction after here text with
  | case1 => exact absurd rfl nonempty
  | case2 here rest ih => exact here.before_nextLine.onward ih
  | case3 here c rest unpaired breaks ih => exact here.before_nextLine.onward ih
  | case4 here c rest unpaired sameLine ih => exact here.before_nextColumn.onward ih

theorem column_after_return (here : Position) {text : List Char}
    (last : text.getLast? = some '\r') : (here.after text).column = 1 := by
  fun_induction after here text with
  | case1 => cases last
  | case2 here rest ih =>
      cases rest with
      | nil => cases last
      | cons d rest => exact ih last
  | case3 here c rest unpaired breaks ih =>
      cases rest with
      | nil => rfl
      | cons d rest => exact ih last
  | case4 here c rest unpaired sameLine ih =>
      cases rest with
      | nil =>
          cases last
          exact absurd sameLine (by decide)
      | cons d rest => exact ih last

end Position

/-- A text that is cut: in front of the cut stand full lines and what is begun of another one, which
goes on behind the cut. -/
structure CutAt (before after : List Char) (full : List (List Char)) (front begun : List Char) :
    Prop where
  text : before = front ++ begun
  lines : splitLines front = full ++ [[]]
  whole : splitLines (before ++ after) = full ++ prepend begun (splitLines after)
  position (here : Position) : here.after before =
    ⟨here.line + full.length, if full = [] then here.column + begun.length else begun.length + 1⟩

namespace CutAt

variable {before after front begun : List Char} {full : List (List Char)}

theorem start (after : List Char) : CutAt [] after [] [] [] where
  text := rfl
  lines := rfl
  whole := by
    cases same : splitLines after with
    | nil => exact absurd same (splitLines_ne_nil after)
    | cons line rest => simpa [prepend] using same
  position _ := rfl

theorem behindBreak (cut : CutAt before after full front begun) (mark : List Char)
    (split : ∀ text, text = front ∨ text = before ++ after →
      splitLines (mark ++ text) = [] :: splitLines text)
    (counts : ∀ here : Position, here.after (mark ++ before) = here.nextLine.after before) :
    CutAt (mark ++ before) after ([] :: full) (mark ++ front) begun where
  text := by rw [cut.text, List.append_assoc]
  lines := by rw [split front (.inl rfl), cut.lines, List.cons_append]
  whole := by rw [List.append_assoc, split _ (.inr rfl), cut.whole, List.cons_append]
  position here := by
    rw [counts, cut.position]
    simp [Position.nextLine, Nat.add_comm, Nat.add_left_comm]

theorem behindPlain (cut : CutAt before after full front begun) {c : Char}
    (sameLine : isLineBreak c = false) :
    ∃ full' front' begun', CutAt (c :: before) after full' front' begun' := by
  have whole : splitLines (c :: before ++ after) = prepend [c] (splitLines (before ++ after)) :=
    splitLines_plain sameLine _
  cases full with
  | nil =>
      obtain rfl := splitLines_eq_empty cut.lines
      refine ⟨[], [], c :: begun, ?_, rfl, ?_, ?_⟩
      · rw [cut.text]
        rfl
      · rw [whole, cut.whole, List.nil_append, List.nil_append,
          prepend_prepend _ _ (splitLines_ne_nil after)]
        rfl
      · intro here
        rw [here.after_plain sameLine, cut.position]
        simp [Position.nextColumn, Nat.add_comm, Nat.add_left_comm]
  | cons line others =>
      refine ⟨(c :: line) :: others, c :: front, begun, ?_, ?_, ?_, ?_⟩
      · rw [cut.text]
        rfl
      · rw [splitLines_plain sameLine, cut.lines]
        rfl
      · rw [whole, cut.whole]
        rfl
      · intro here
        rw [here.after_plain sameLine, cut.position]
        simp [Position.nextColumn]

end CutAt

theorem unpaired_append {c : Char} {rest after : List Char}
    (unpaired : ∀ behind, c = '\r' → rest = '\n' :: behind → False)
    (apart : ¬PartsReturn (c :: rest) after) :
    ∀ behind, c = '\r' → rest ++ after = '\n' :: behind → False := by
  intro behind isReturn begins
  cases rest with
  | nil => exact apart ⟨by rw [isReturn]; rfl, by rw [← List.nil_append after, begins]; rfl⟩
  | cons d others =>
      obtain ⟨rfl, _⟩ := List.cons.inj begins
      exact unpaired others isReturn rfl

/-- Every text that is not cut inside a break is cut like this. -/
theorem exists_cutAt {before after : List Char} (apart : ¬PartsReturn before after) :
    ∃ full front begun, CutAt before after full front begun := by
  induction before using splitLines.induct with
  | case1 => exact ⟨[], [], [], .start after⟩
  | case2 rest ih =>
      obtain ⟨full, front, begun, cut⟩ := ih fun parts => apart ((parts.cons _).cons _)
      exact ⟨_, _, _, cut.behindBreak ['\r', '\n'] (fun text _ => rfl) fun here => rfl⟩
  | case3 c rest unpaired breaks ih =>
      obtain ⟨full, front, begun, cut⟩ := ih fun parts => apart (parts.cons _)
      refine ⟨_, _, _, cut.behindBreak [c] ?_ fun here => here.after_break breaks unpaired⟩
      intro text isPart
      apply splitLines_break breaks
      intro behind isReturn (begins : text = '\n' :: behind)
      rcases isPart with isFront | isWhole
      · exact unpaired (behind ++ begun) isReturn (by rw [cut.text, ← isFront, begins]; rfl)
      · exact unpaired_append unpaired apart behind isReturn (by rw [← isWhole, begins])
  | case4 c rest unpaired sameLine _ ih | case5 c rest unpaired sameLine _ _ _ ih =>
      obtain ⟨full, front, begun, cut⟩ := ih fun parts => apart (parts.cons _)
      exact cut.behindPlain (by simpa using sameLine)

/-- A position is counted on from wherever the text is cut. -/
theorem Position.after_append {before after : List Char} (apart : ¬PartsReturn before after)
    (here : Position) : here.after (before ++ after) = (here.after before).after after := by
  induction before using splitLines.induct generalizing here with
  | case1 => rfl
  | case2 rest ih => exact ih (fun parts => apart ((parts.cons _).cons _)) here.nextLine
  | case3 c rest unpaired breaks ih =>
      rw [List.cons_append, here.after_break breaks (unpaired_append unpaired apart),
        here.after_break breaks unpaired]
      exact ih (fun parts => apart (parts.cons _)) here.nextLine
  | case4 c rest unpaired sameLine _ ih | case5 c rest unpaired sameLine _ _ _ ih =>
      have plain : isLineBreak c = false := by simpa using sameLine
      rw [List.cons_append, here.after_plain plain, here.after_plain plain]
      exact ih (fun parts => apart (parts.cons _)) here.nextColumn

theorem after_of_splitLines {text begun : List Char} {full : List (List Char)}
    (lines : splitLines text = full ++ [begun]) :
    Position.start.after text = ⟨full.length + 1, begun.length + 1⟩ := by
  have apart : ¬PartsReturn text [] := by rintro ⟨_, ⟨⟩⟩
  obtain ⟨full', front, begun', cut⟩ := exists_cutAt apart
  have whole := cut.whole
  rw [List.append_nil, lines] at whole
  obtain ⟨rfl, same⟩ := List.append_inj' whole rfl
  obtain rfl : begun = begun' := by simpa [splitLines, prepend] using same
  rw [cut.position]
  simp [Position.start, Nat.add_comm]

/-- The text begins with `before`, and `after` is the rest of it. It is not cut inside a break. -/
structure Source.Cut (source : Source) (before after : List Char) : Prop where
  whole : source.chars = before ++ after
  apart : ¬PartsReturn before after

/-- Line and column lead to where `before` ends and `after` begins: the line is there, the column is
in it or just behind it, in front of the column stands the end of `before`, and from there on the
line goes on as `after` does. `front` is all that stands in front of the line. -/
structure Source.Points (source : Source) (before after : List Char) (here : Position)
    (front line : List Char) : Prop where
  counts : 0 < here.line ∧ 0 < here.column
  isLine : (splitLines source.chars)[here.line - 1]? = some line
  column : here.column - 1 ≤ line.length
  lines : splitLines front = (splitLines source.chars).take (here.line - 1) ++ [[]]
  begins : source.locationOf (byteLength front) = ⟨here.line, 1⟩
  behind : before = front ++ line.take (here.column - 1)
  slice : source.slice? (byteLength front) (byteLength before) =
    some (String.ofList (line.take (here.column - 1)))
  ahead : line.drop (here.column - 1) = after.takeWhile fun c => !isLineBreak c

section
variable {source : Source} {before after : List Char}

theorem CutAt.points {front begun : List Char} {full : List (List Char)}
    (cut : CutAt before after full front begun) (whole : source.chars = before ++ after) :
    source.Points before after (source.locationOf (byteLength before)) front
      (begun ++ after.takeWhile fun c => !isLineBreak c) := by
  have location : source.locationOf (byteLength before) = ⟨full.length + 1, begun.length + 1⟩ := by
    rw [Source.locationOf_byteLength whole, cut.position]
    simp [Position.start, Nat.add_comm]
  have lines : splitLines source.chars =
      full ++ prepend begun (splitLines after) := by rw [whole, cut.whole]
  have search := splitLines_search after
  have front' : source.chars = front ++ (begun ++ after) := by
    rw [whole, cut.text, List.append_assoc]
  rw [location]
  constructor
  · simp
  · rw [lines, search]
    simp [prepend]
  · simp
  · rw [lines, cut.lines]
    simp
  · rw [Source.locationOf_byteLength front', after_of_splitLines cut.lines]
    rfl
  · rw [cut.text]
    simp
  · rw [cut.text, Source.slice_between front']
    simp
  · simp

theorem Source.Cut.points (cut : source.Cut before after) :
    ∃ front line,
      source.Points before after (source.locationOf (byteLength before)) front line := by
  obtain ⟨full, front, begun, isCut⟩ := exists_cutAt cut.apart
  exact ⟨front, _, isCut.points cut.whole⟩

/-- Of two places, the one with the smaller offset has the smaller position. -/
theorem Source.Cut.ordered {before' after' : List Char} (cut : source.Cut before after)
    (other : source.Cut before' after') (less : byteLength before < byteLength before') :
    (source.locationOf (byteLength before)).Before (source.locationOf (byteLength before')) := by
  rcases List.append_eq_append_iff.mp (cut.whole.symm.trans other.whole) with
    ⟨between, rfl, ahead⟩ | ⟨between, rfl, _⟩
  · have nonempty : between ≠ [] := by
      rintro rfl
      rw [List.append_nil] at less
      exact Nat.lt_irrefl _ less
    have apart : ¬PartsReturn before between := by
      rintro ⟨isReturn, isFeed⟩
      apply cut.apart ⟨isReturn, _⟩
      rw [ahead, List.head?_append, isFeed]
      rfl
    rw [Source.locationOf_byteLength cut.whole, Source.locationOf_byteLength other.whole,
      Position.after_append apart]
    exact Position.before_after _ nonempty
  · rw [byteLength_append] at less
    omega

end

theorem takeBytes_spec (bytes : Nat) (text : List Char) :
    ∃ after, text = takeBytes bytes text ++ after ∧ byteLength (takeBytes bytes text) ≤ bytes ∧
      ∀ c ∈ after.head?, bytes < byteLength (takeBytes bytes text) + c.utf8Size := by
  fun_induction takeBytes bytes text with
  | case1 bytes => exact ⟨[], rfl, Nat.zero_le _, by simp⟩
  | case2 bytes c rest fits ih =>
      obtain ⟨after, whole, within, next⟩ := ih
      refine ⟨after, by rw [List.cons_append, ← whole], ?_, ?_⟩
      · simp only [byteLength]
        omega
      · intro d member
        have beyond := next d member
        simp only [byteLength]
        omega
  | case3 bytes c rest long =>
      refine ⟨c :: rest, rfl, Nat.zero_le _, ?_⟩
      intro d member
      obtain rfl : c = d := Option.some.inj member
      simp only [byteLength]
      omega

/-- An offset that is no boundary has the position of the one below, and one past the end has that
of the end. -/
theorem Source.locationOf_below (source : Source) (offset : Nat) :
    ∃ before after, source.chars = before ++ after ∧ byteLength before ≤ offset ∧
      (∀ c ∈ after.head?, offset < byteLength before + c.utf8Size) ∧
      source.locationOf offset = source.locationOf (byteLength before) := by
  obtain ⟨after, whole, within, next⟩ := takeBytes_spec offset source.chars
  refine ⟨_, after, whole, within, next, ?_⟩
  rw [Source.locationOf_byteLength whole, Source.locationOf]

/-- No column is farther to the right than just behind the longest line. -/
theorem Source.column_le {source : Source} {most : Nat}
    (short : ∀ line ∈ splitLines source.chars, line.length ≤ most) (offset : Nat) :
    (source.locationOf offset).column - 1 ≤ most := by
  obtain ⟨before, after, whole, _, _, same⟩ := source.locationOf_below offset
  rw [same]
  by_cases parts : PartsReturn before after
  · rw [Source.locationOf_byteLength whole, Position.column_after_return _ parts.1]
    exact Nat.zero_le most
  · obtain ⟨_, line, points⟩ := Source.Cut.points ⟨whole, parts⟩
    exact Nat.le_trans points.column (short line (List.mem_of_getElem? points.isLine))

end GraphQL
