/-!
Where a text leaves off satisfying a predicate: what stands in front of that place can be
taken and dropped as a whole.
-/

namespace GraphQL.Lexical

/-- What a text begins with fails `p`, if it begins at all. -/
def Halts (p : Char → Bool) (text : List Char) : Prop := ∀ c ∈ text.head?, p c = false

theorem halts_nil {p : Char → Bool} : Halts p [] := by
  intro c member
  cases member

theorem halts_cons {p : Char → Bool} {c : Char} {rest : List Char} (fails : p c = false) :
    Halts p (c :: rest) := by
  intro found member
  obtain rfl : c = found := by simpa using member
  exact fails

theorem halts_append {p : Char → Bool} {left right : List Char} (first : Halts p left)
    (second : Halts p right) : Halts p (left ++ right) := by
  cases left with
  | nil => exact second
  | cons c rest => exact halts_cons (first c rfl)

theorem Halts.cut {p : Char → Bool} {text other : List Char} (halts : Halts p text)
    (cut : other <+: text) : Halts p other := by
  obtain ⟨left, rfl⟩ := cut
  cases other with
  | nil => exact halts_nil
  | cons c rest => exact halts_cons (halts c rfl)

theorem takeWhile_halts {p : Char → Bool} {word rest : List Char} (all : ∀ c ∈ word, p c = true)
    (halts : Halts p rest) : (word ++ rest).takeWhile p = word := by
  rw [List.takeWhile_append_of_pos all]
  cases rest with
  | nil => simp
  | cons c rest => simp [halts c rfl]

theorem dropWhile_halts {p : Char → Bool} {word rest : List Char} (all : ∀ c ∈ word, p c = true)
    (halts : Halts p rest) : (word ++ rest).dropWhile p = rest := by
  rw [List.dropWhile_append_of_pos all]
  cases rest with
  | nil => rfl
  | cons c rest => simp [halts c rfl]

theorem halts_dropWhile {p : Char → Bool} (text : List Char) : Halts p (text.dropWhile p) := by
  intro c member
  have fails := List.head?_dropWhile_not p text
  rw [Option.mem_def.mp member] at fails
  simpa using fails

theorem drop_length_takeWhile (p : Char → Bool) (text : List Char) :
    text.drop (text.takeWhile p).length = text.dropWhile p := by
  have dropped : (text.takeWhile p ++ text.dropWhile p).drop (text.takeWhile p).length =
      text.dropWhile p := List.drop_left
  rwa [List.takeWhile_append_dropWhile] at dropped

end GraphQL.Lexical
