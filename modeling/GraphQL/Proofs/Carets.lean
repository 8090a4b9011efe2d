import GraphQL.Proofs.Blame

/-!
What an error shows of its source. In the detailed form of an error of the parser, the line in which
it stands is written out, and a caret in the line below it points at the character at its place.
What `detailed` would show is told for every line; `detailed?` shows it where the lines are not
too long.
-/

namespace GraphQL

theorem toList_pushn (c : Char) (count : Nat) :
    ("".pushn c count).toList = List.replicate count c := by
  induction count with
  | zero => rfl
  | succ count ih =>
      have next : "".pushn c (count + 1) = ("".pushn c count).push c := rfl
      rw [next, String.toList_push, ih, List.replicate_succ']

theorem sameLine_toString (number : Nat) : '\n' ∉ (toString number).toList := by
  rw [Nat.toString_eq_repr, Nat.toList_repr]
  intro member
  exact absurd (Nat.isDigit_of_mem_toDigits (by decide) (by decide) member) (by decide)

/-- A text that shows a line of another one, and in the line below it a mark under a column. In
front of both stand margins of one width. -/
structure Shows (text line : List Char) (column : Nat) (marker : Char)
    (top gutter margin bottom : List Char) : Prop where
  whole : text = top ++ '\n' :: (gutter ++ line ++ '\n' ::
    (margin ++ List.replicate (column - 1) ' ' ++ marker :: '\n' :: bottom))
  aligned : gutter.length = margin.length
  sameLine : '\n' ∉ gutter ∧ '\n' ∉ line ∧ '\n' ∉ margin

theorem Shows.around {text line top gutter margin bottom : List Char} {column : Nat} {marker : Char}
    (shows : Shows text line column marker top gutter margin bottom) (front behind : List Char) :
    Shows (front ++ text ++ behind) line column marker (front ++ top) gutter margin
      (bottom ++ behind) where
  whole := by
    rw [shows.whole]
    simp
  aligned := shows.aligned
  sameLine := shows.sameLine

theorem snippet_shows {body : String} {here : Position} {line : List Char}
    (counts : 0 < here.line) (found : (splitLines body.toList)[here.line - 1]? = some line)
    (marker : Char) :
    ∃ top gutter margin,
      Shows (snippet body here marker).toList line here.column marker top gutter margin [] := by
  have apart : here.line ≠ 0 := Nat.ne_of_gt counts
  have noFeed := sameLine_toString here.line
  generalize number : toString here.line = digits at noFeed
  have wide : digits.length ≤ max digits.length 2 := Nat.le_max_left _ _
  have noBreak := sameLine_of_mem_splitLines (List.mem_of_getElem? found)
  refine ⟨List.replicate (max digits.length 2) ' ' ++ [' ', '|'],
    List.replicate (max digits.length 2 - digits.length) ' ' ++ digits.toList ++ [' ', '|', ' '],
    List.replicate (max digits.length 2) ' ' ++ [' ', '|', ' '], ?_, ?_, ?_, ?_, ?_⟩
  · simp only [snippet, if_neg apart, found, number, String.toList_append, toList_pushn,
      String.toList_ofList, String.toList_singleton]
    simp
  · simp only [List.length_append, List.length_replicate, List.length_cons, List.length_nil,
      String.length_toList]
    omega
  · simpa using noFeed
  · exact fun member => absurd (noBreak _ member) (by decide)
  · simp

theorem SyntaxError.detailed_shows {source : Source} {error : SyntaxError}
    {before after front line : List Char}
    (points : source.Points before after error.position front line) :
    ∃ top gutter margin bottom, Shows (error.detailed source.body).toList line
      error.position.column '^' top gutter margin bottom := by
  obtain ⟨top, gutter, margin, shows⟩ := snippet_shows points.counts.1 points.isLine '^'
  have around := shows.around
    ("error: " ++ error.message ++ "\n  --> " ++ error.place ++ "\n").toList
    (String.join (error.notes.map (Note.detailed source.body))).toList
  rw [← String.toList_append, ← String.toList_append] at around
  exact ⟨_, gutter, margin, _, around⟩

/-- Where no line is too long, all that an error marks is in reach. -/
theorem SyntaxError.MarksIn.detailed_eq {source : Source} {error : SyntaxError}
    (marksIn : error.MarksIn source)
    (short : ∀ line ∈ splitLines source.chars, line.length ≤ maxPadding) :
    error.detailed? source.body = some (error.detailed source.body) := by
  refine if_pos (List.all_eq_true.mpr fun position marked => ?_)
  obtain ⟨offset, rfl⟩ := marksIn.located marked
  have within := source.column_le short offset
  rw [Position.isInReach, decide_eq_true within, Bool.or_true]

/-- Wherever a text is cut, but not inside a break, the position leads to the line there and to the
column at which it is cut. Farther cuts have larger positions, and every offset has the position of
a boundary. An error of the parser stands at such a cut, and its detailed form has a caret under
it. The form exists if no line is longer than what a text can be filled up with. -/
theorem Source.positions_point (source : Source) (options : Options) :
    (∀ before after, source.Cut before after → ∃ front line,
      source.Points before after (source.locationOf (byteLength before)) front line) ∧
    (∀ before after before' after', source.Cut before after → source.Cut before' after' →
      byteLength before < byteLength before' →
      (source.locationOf (byteLength before)).Before (source.locationOf (byteLength before'))) ∧
    (∀ offset, ∃ before after, source.chars = before ++ after ∧ byteLength before ≤ offset ∧
      (∀ c ∈ after.head?, offset < byteLength before + c.utf8Size) ∧
      source.locationOf offset = source.locationOf (byteLength before)) ∧
    ∀ error, (Document.parse source options = .error error ∨
        Value.parse source options = .error error ∨
        Value.parseConst source options = .error error ∨
        TypeRef.parse source options = .error error) →
      (∃ before after front line top gutter margin bottom,
        source.Cut before after ∧ error.offset = byteLength before ∧
        error.position = source.locationOf error.offset ∧
        source.Points before after error.position front line ∧
        Shows (error.detailed source.body).toList line error.position.column '^'
          top gutter margin bottom) ∧
      ((∀ line ∈ splitLines source.chars, line.length ≤ maxPadding) →
        error.detailed? source.body = some (error.detailed source.body)) := by
  refine ⟨fun before after cut => cut.points, ?_, source.locationOf_below, ?_⟩
  · intro before after before' after' cut other less
    exact cut.ordered other less
  · intro error failed
    refine ⟨?_, (parse_error_marksIn failed).detailed_eq⟩
    obtain ⟨⟨before, after, cut, offset⟩, position⟩ := parse_error_standsIn failed
    obtain ⟨front, line, points⟩ := cut.points
    rw [← offset, ← position] at points
    obtain ⟨top, gutter, margin, bottom, shows⟩ := SyntaxError.detailed_shows points
    exact ⟨before, after, front, line, top, gutter, margin, bottom, cut, offset, position, points,
      shows⟩

/-- The error stands in the third line, behind two kinds of breaks and a character of two bytes. -/
theorem Source.positions_point_thirdLine :
    let source := Source.ofBody "\x7b\r\n  # é\r  é \x7d"
    ∃ error, Document.parse source Options.default = .error error ∧
      ∃ before after front line top gutter margin bottom,
        source.Cut before after ∧ byteLength before = 12 ∧
        source.Points before after ⟨3, 3⟩ front line ∧
        Shows (error.detailed source.body).toList line 3 '^' top gutter margin bottom := by
  intro source
  have place : (match Document.parse source Options.default with
      | .ok _ => none
      | .error error => some (error.offset, error.position)) = some (12, ⟨3, 3⟩) := by
    decide +kernel
  cases parsed : Document.parse source Options.default with
  | ok _ => simp [parsed] at place
  | error error =>
      obtain ⟨offset, position⟩ : error.offset = 12 ∧ error.position = ⟨3, 3⟩ := by
        simpa [parsed] using place
      obtain ⟨before, after, front, line, top, gutter, margin, bottom, cut, same, _, points,
        shows⟩ := ((Source.positions_point source Options.default).2.2.2 error (.inl parsed)).1
      rw [position] at points shows
      exact ⟨error, rfl, before, after, front, line, top, gutter, margin, bottom, cut,
        same.symm.trans offset, points, shows⟩

end GraphQL
