import GraphQL.Proofs.Dedent
import Mathlib.Data.List.Forall2

/-!
What a block string keeps of its lines: those from the first to the last with text, of each of them
one part, and no indentation that they share.
-/

namespace GraphQL.BlockString

/-- Puts an indentation in front of all lines but the first. -/
def reindent (indent : List Char) : List (List Char) → List (List Char)
  | [] => []
  | first :: rest => first :: rest.map (indent ++ ·)

/-- A run of the characters of a line, which lacks only indentation and blanks at the end. -/
def IsPart (part line : List Char) : Prop :=
  ∃ front back, line = front ++ (part ++ back) ∧ isBlank front = true ∧ isBlank back = true

/-- How dedented lines stand to all lines: each is cut from one of those that are `kept`, and only
blank lines are left out, in front of these and behind. -/
structure Cuts (lines dedented front kept back : List (List Char)) : Prop where
  split : lines = front ++ (kept ++ back)
  blank : ∀ line ∈ front ++ back, isBlank line = true
  parts : List.Forall₂ IsPart dedented kept
  opens : ∀ line ∈ dedented.head?, isBlank line = false
  closes : ∀ line ∈ dedented.getLast?, isBlank line = false
  trimmed : ∀ line ∈ dedented, endsIndented line = false
  /-- The first line of all is not shifted, and does not count where it is kept. -/
  margin : 1 < dedented.length → ∃ line ∈ dedented.drop (if front = [] then 1 else 0),
    isBlank line = false ∧ startsIndented line = false

def Shifts (line shifted : List Char) : Prop :=
  ∃ front, line = front ++ shifted ∧ isBlank front = true

theorem Shifts.isBlank_eq {line shifted : List Char} (shifts : Shifts line shifted) :
    isBlank line = isBlank shifted := by
  obtain ⟨front, rfl, blank⟩ := shifts
  rw [isBlank_append, blank, Bool.true_and]

theorem shift_parts (lines : List (List Char)) : List.Forall₂ Shifts lines (shift lines) := by
  cases lines with
  | nil => exact .nil
  | cons first rest =>
      refine .cons ⟨[], rfl, rfl⟩ (List.forall₂_map_right_iff.mpr ?_)
      refine List.forall₂_same.mpr fun line _ => ⟨_, (List.take_append_drop _ line).symm, ?_⟩
      exact isBlank_take_indentation line (Nat.min_le_right _ _)

theorem exists_shift_eq (lines : List (List Char)) :
    ∃ front back, shift lines = front ++ (textLines lines ++ back) ∧
      ∀ line ∈ front ++ back, isBlank line = true := by
  obtain ⟨back, split, blank⟩ := exists_dropTrailing isBlank (shift lines)
  refine ⟨(dropTrailing isBlank (shift lines)).takeWhile isBlank, back, ?_, ?_⟩
  · rw [textLines, ← List.append_assoc, List.takeWhile_append_dropWhile]
    exact split
  · intro line member
    rcases List.mem_append.mp member with isFront | isBack
    · exact List.all_eq_true.mp List.all_takeWhile line isFront
    · exact blank line isBack

theorem margin_kept {lines front back : List (List Char)}
    (whole : shift lines = front ++ (textLines lines ++ back))
    (blank : ∀ line ∈ front ++ back, isBlank line = true) (several : 1 < (textLines lines).length) :
    ∃ line ∈ (textLines lines).drop (if front = [] then 1 else 0),
      isBlank line = false ∧ startsIndented line = false := by
  obtain ⟨line, behind, text, starts⟩ := exists_margin_of_textLines several
  refine ⟨line, ?_, text, starts⟩
  split
  · next none =>
    rw [whole, none, List.nil_append, List.drop_append_of_le_length (Nat.le_of_lt several)]
      at behind
    rcases List.mem_append.mp behind with found | isBack
    · exact found
    · rw [blank line (List.mem_append_right front isBack)] at text
      cases text
  · exact mem_textLines (List.mem_of_mem_drop behind) text

theorem blank_of_parts {lines shifted : List (List Char)}
    (parts : List.Forall₂ Shifts lines shifted)
    (blank : ∀ line ∈ shifted, isBlank line = true) : ∀ line ∈ lines, isBlank line = true := by
  induction parts with
  | nil => exact fun line member => nomatch member
  | cons part _ ih =>
      obtain ⟨first, others⟩ := List.forall_mem_cons.mp blank
      exact List.forall_mem_cons.mpr ⟨part.isBlank_eq.trans first, ih others⟩

theorem parts_trimmed {kept shifted : List (List Char)}
    (parts : List.Forall₂ Shifts kept shifted) :
    List.Forall₂ IsPart (shifted.map (dropTrailing isIndent)) kept := by
  rw [List.forall₂_map_left_iff]
  refine List.Forall₂.flip (parts.imp fun line part isPart => ?_)
  obtain ⟨front, rfl, blank⟩ := isPart
  obtain ⟨back, split, blanks⟩ := exists_dropTrailing isIndent part
  exact ⟨front, back, congrArg (front ++ ·) split, blank, List.all_eq_true.mpr blanks⟩

theorem areDedented_of_mem {lines : List (List Char)} {line : List Char}
    (member : line ∈ dedentLines lines) : areDedented (dedentLines lines) = true :=
  areDedented_dedentLines (List.ne_nil_of_mem member)

theorem opens_dedentLines (lines : List (List Char)) :
    ∀ line ∈ (dedentLines lines).head?, isBlank line = false := by
  intro line first
  obtain ⟨opening, rest, same, text⟩ :=
    opens_of_areDedented (areDedented_of_mem (List.mem_of_mem_head? first))
  rw [same] at first
  obtain rfl := Option.some.inj first
  exact text

theorem exists_cuts (lines : List (List Char)) :
    ∃ front kept back, Cuts lines (dedentLines lines) front kept back := by
  obtain ⟨shiftedFront, shiftedBack, split, blank⟩ := exists_shift_eq lines
  rw [List.forall_mem_append] at blank
  have parts := shift_parts lines
  rw [split] at parts
  have behind := List.forall₂_drop_append _ _ _ parts
  have frontParts := List.forall₂_take_append _ _ _ parts
  refine ⟨lines.take shiftedFront.length,
    (lines.drop shiftedFront.length).take (textLines lines).length,
    (lines.drop shiftedFront.length).drop (textLines lines).length, ?_⟩
  exact {
    split := by rw [List.take_append_drop, List.take_append_drop]
    blank := List.forall_mem_append.mpr
      ⟨blank_of_parts frontParts blank.1,
        blank_of_parts (List.forall₂_drop_append _ _ _ behind) blank.2⟩
    parts := parts_trimmed (List.forall₂_take_append _ _ _ behind)
    opens := opens_dedentLines lines
    closes := fun line last =>
      closes_of_areDedented (areDedented_of_mem (List.mem_of_mem_getLast? last)) line last
    trimmed := by
      intro line member
      obtain ⟨untrimmed, _, rfl⟩ := List.mem_map.mp member
      exact endsIndented_dropTrailing untrimmed
    margin := by
      intro several
      have sameFront : lines.take shiftedFront.length = [] ↔ shiftedFront = [] := by
        rw [← List.length_eq_zero_iff, frontParts.length_eq, List.length_eq_zero_iff]
      rw [dedentLines_eq, List.length_map] at several
      obtain ⟨line, member, text, starts⟩ :=
        margin_kept split (List.forall_mem_append.mpr blank) several
      refine ⟨dropTrailing isIndent line, ?_, ?_, startsIndented_dropTrailing starts⟩
      · simp only [dedentLines_eq, ← List.map_drop, sameFront]
        exact List.mem_map_of_mem member
      · rw [isBlank_dropTrailing, text] }

/-- Whatever indents all lines behind the first, the same lines are left of a block string: text
begins and ends them, none ends in blanks, and of several one starts at the margin. -/
theorem dedentLines_normal :
    (∀ indent lines, isBlank indent = true →
      dedentLines (reindent indent lines) = dedentLines lines) ∧
    ∀ lines, ∃ front kept back, Cuts lines (dedentLines lines) front kept back := by
  refine ⟨fun indent lines blank => ?_, exists_cuts⟩
  cases lines with
  | nil => rfl
  | cons first rest => exact dedentLines_reindent blank

/-- A tab counts like a space, and the first line keeps what it is indented by. -/
theorem dedentLines_normal_tabs :
    dedentLines (reindent ['\t', ' '] ["  a".toList, [], "  b ".toList, "\t c".toList, " ".toList]) =
      ["  a".toList, [], "b".toList, "c".toList] :=
  (dedentLines_normal.1 ['\t', ' '] _ (by decide)).trans (by decide)

end GraphQL.BlockString
