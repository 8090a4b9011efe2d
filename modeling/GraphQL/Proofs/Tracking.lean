import GraphQL.Proofs.Arena

/-!
The lines and columns that a lexer keeps on its way are those of its offsets, however it is
driven and wherever its reads failed.
-/

namespace GraphQL

open Lexical (OnLine)

/-- The positions of a token are those of its offsets. A token that is no block string lies on
one line, and its columns count its characters. -/
structure Token.Tracks (source : Source) (token : Token) : Prop where
  startPosition : token.startPosition = source.locationOf token.start
  endPosition : token.endPosition = source.locationOf token.stop
  ordered : token.start ≤ token.stop
  sameLine : token.kind ≠ .blockString → ∃ slice,
    source.slice? token.start token.stop = some slice ∧
      token.endPosition = ⟨token.startPosition.line, token.startPosition.column + slice.length⟩

/-- The scan stands on a boundary and knows its position, which any walk over the text behind
it leads to. No token begins before those in front of it have ended. -/
structure Lexer.Tracks (source : Source) (lexer : Lexer) : Prop where
  boundary : ∃ behind,
    splitBytes? lexer.scan.cursor.offset source.chars = some (behind, lexer.scan.rest) ∧
      ∀ there, Cursor.Walk .start behind there → there = lexer.scan.cursor
  position : lexer.scan.cursor.position = source.locationOf lexer.scan.cursor.offset
  tokens : ∀ token ∈ lexer.tokens, token.Tracks source
  ordered : lexer.tokens.toList.Pairwise fun first second => first.stop ≤ second.start

theorem Token.Covers.tracks {source : Source} {token : Token} {before slice after : List Char}
    (whole : source.chars = before ++ slice ++ after) (covers : token.Covers before slice after) :
    token.Tracks source where
  startPosition := by
    rw [List.append_assoc] at whole
    rw [covers.start, covers.startPosition, Source.locationOf_byteLength whole]
  endPosition := by
    rw [covers.stop, covers.endPosition, Source.locationOf_byteLength whole]
  ordered := by
    rw [covers.start, covers.stop, byteLength_append]
    exact Nat.le_add_right _ _
  sameLine other := by
    have onLine : OnLine slice := covers.sliced.onLine other
    have moved := Cursor.position_onLine onLine (Cursor.start.advance before)
    rw [← Cursor.advance_append, Cursor.position_advance _ rfl, Cursor.position_advance _ rfl]
      at moved
    refine ⟨String.ofList slice, covers.slice_eq whole, ?_⟩
    rw [covers.endPosition, covers.startPosition, String.length_ofList]
    exact moved

theorem Token.sof_tracks (source : Source) : Token.sof.Tracks source where
  startPosition := (Source.locationOf_byteLength (List.nil_append source.chars).symm).symm
  endPosition := (Source.locationOf_byteLength (List.nil_append source.chars).symm).symm
  ordered := Nat.le_refl _
  sameLine _ := ⟨"", source.slice_start, rfl⟩

theorem Grown.tracks {source : Source} {clean : Bool} {behind : List Char} {tokens : List Token}
    (grown : Grown source clean behind tokens) :
    (∀ token ∈ tokens, token.Tracks source ∧ token.stop ≤ byteLength behind) ∧
      tokens.Pairwise fun first second => first.stop ≤ second.start := by
  induction grown with
  | start =>
      refine ⟨fun token member => ?_, List.pairwise_singleton _ _⟩
      rw [List.mem_singleton.mp member]
      exact ⟨Token.sof_tracks source, Nat.le_refl _⟩
  | @token clean behind gap slice after tokens token _ _ _ whole covers _ ih =>
      obtain ⟨each, ordered⟩ := ih
      have onward : ∀ text more : List Char, byteLength text ≤ byteLength (text ++ more) := by
        intro text more
        rw [byteLength_append]
        exact Nat.le_add_right _ _
      refine ⟨?_, List.pairwise_append.mpr ⟨ordered, List.pairwise_singleton _ _, ?_⟩⟩
      · intro other member
        rcases List.mem_append.mp member with old | new
        · obtain ⟨tracks, stop⟩ := each other old
          exact ⟨tracks, Nat.le_trans stop (Nat.le_trans (onward _ gap) (onward _ slice))⟩
        · rw [List.mem_singleton.mp new]
          exact ⟨covers.tracks whole, Nat.le_of_eq covers.stop⟩
      · intro first old second new
        rw [List.mem_singleton.mp new, covers.start]
        exact Nat.le_trans (each first old).2 (onward _ gap)
  | fault _ more ih =>
      obtain ⟨each, ordered⟩ := ih
      refine ⟨fun token member => ?_, ordered⟩
      obtain ⟨tracks, stop⟩ := each token member
      rw [byteLength_append]
      exact ⟨tracks, Nat.le_trans stop (Nat.le_add_right _ _)⟩

/-- After any calls, failed ones among them, a lexer agrees with its source on every position
that it knows. -/
theorem Lexer.tracks_run (source : Source) (calls : List Lexer.Call) :
    ((Lexer.ofSource source).run calls).2.Tracks source := by
  obtain ⟨_, behind, stands, grown⟩ := (run_reached (reached_ofSource source) calls).holds
  obtain ⟨each, ordered⟩ := grown.tracks
  refine ⟨⟨behind, ?_, ?_⟩, ?_, ?_, ordered⟩
  · rw [stands.offset, stands.whole, splitBytes_append]
  · intro there walk
    rw [walk.eq_advance, stands.cursor]
  · rw [stands.position, stands.offset, Source.locationOf_byteLength stands.whole]
  · intro token member
    exact (each token (Array.mem_toList_iff.mpr member)).1

end GraphQL
