import GraphQL.Number.Numeral
import GraphQL.Proofs.Collation.Encoding
import Mathlib.Data.List.Chain

/-!
Names as pieces: runs of digits, which are as long as they can be, and single other characters.
Comparing names is comparing their pieces one by one.
-/

namespace GraphQL.NaturalOrder

open String (utf8EncodeChar)

/-- A run has one digit at least. -/
inductive Piece where
  | run (first : Char) (rest : List Char) (digits : ∀ c ∈ first :: rest, c.isDigit = true)
  | other (c : Char) (plain : c.isDigit = false)

namespace Piece

def isRun : Piece → Bool
  | run .. => true
  | other .. => false

def first : Piece → Char
  | run first _ _ => first
  | other c _ => c

def text : Piece → List Char
  | run first rest _ => first :: rest
  | other c _ => [c]

/-- Runs go by number and then by length, all else by the code point of the first character. -/
def compare : Piece → Piece → Ordering
  | run c cs _, run d ds _ =>
      (Ord.compare (Numeral.ofDigits (c :: cs)) (Numeral.ofDigits (d :: ds))).then
        (Ord.compare (c :: cs).length (d :: ds).length)
  | x, y => Ord.compare x.first.toNat y.first.toNat

end Piece

def addDigit (c : Char) (digit : c.isDigit = true) : List Piece → List Piece
  | .run first rest digits :: others =>
      .run c (first :: rest) (List.forall_mem_cons.mpr ⟨digit, digits⟩) :: others
  | others => .run c [] (by simpa using digit) :: others

def pieces : List Char → List Piece
  | [] => []
  | c :: rest =>
      if digit : c.isDigit = true then addDigit c digit (pieces rest)
      else .other c (Bool.eq_false_iff.mpr digit) :: pieces rest

def bytesOf (pieces : List Piece) : List UInt8 := (pieces.flatMap Piece.text).flatMap utf8EncodeChar

def AreMaximal (pieces : List Piece) : Prop :=
  pieces.IsChain fun left right => ¬(left.isRun = true ∧ right.isRun = true)

theorem text_addDigit {c : Char} (digit : c.isDigit = true) (others : List Piece) :
    (addDigit c digit others).flatMap Piece.text = c :: others.flatMap Piece.text := by
  cases others with
  | nil => rfl
  | cons piece more => cases piece <;> rfl

theorem areMaximal_addDigit {c : Char} (digit : c.isDigit = true) {others : List Piece}
    (maximal : AreMaximal others) : AreMaximal (addDigit c digit others) := by
  cases others with
  | nil => exact List.isChain_singleton _
  | cons piece more =>
      cases piece with
      | run => exact List.isChain_cons.mpr (List.isChain_cons.mp maximal)
      | other d plain => exact List.isChain_cons_cons.mpr ⟨by simp [Piece.isRun], maximal⟩

theorem text_pieces (text : List Char) : (pieces text).flatMap Piece.text = text := by
  induction text with
  | nil => rfl
  | cons c rest ih =>
      rw [pieces]
      split
      · rw [text_addDigit, ih]
      · rw [List.flatMap_cons, ih]
        rfl

theorem areMaximal_pieces (text : List Char) : AreMaximal (pieces text) := by
  induction text with
  | nil => exact List.isChain_nil
  | cons c rest ih =>
      rw [pieces]
      split
      · exact areMaximal_addDigit _ ih
      · exact List.isChain_cons.mpr ⟨by simp [Piece.isRun], ih⟩

theorem pieces_run {c : Char} {cs : List Char} (digits : ∀ d ∈ c :: cs, d.isDigit = true)
    {rest : List Char} (ends : ∀ next ∈ (pieces rest).head?, next.isRun = false) :
    pieces (c :: cs ++ rest) = .run c cs digits :: pieces rest := by
  induction cs generalizing c with
  | nil =>
      rw [List.singleton_append, pieces, dif_pos (digits c List.mem_cons_self)]
      cases following : pieces rest with
      | nil => rfl
      | cons piece more =>
          cases piece with
          | run => cases ends _ (by rw [following]; rfl)
          | other d plain => rfl
  | cons d ds ih =>
      rw [List.cons_append, pieces, dif_pos (digits c List.mem_cons_self),
        ih fun next member => digits next (List.mem_cons_of_mem c member)]
      rfl

/-- Every text has one way to be cut into such pieces. -/
theorem pieces_eq_iff {text : List Char} {parts : List Piece} :
    pieces text = parts ↔ parts.flatMap Piece.text = text ∧ AreMaximal parts := by
  constructor
  · rintro rfl
    exact ⟨text_pieces text, areMaximal_pieces text⟩
  · rintro ⟨rfl, maximal⟩
    induction parts with
    | nil => rfl
    | cons piece others ih =>
        obtain ⟨ends, rest⟩ := List.isChain_cons.mp maximal
        have tail := ih rest
        rw [List.flatMap_cons]
        cases piece with
        | run c cs digits =>
            rw [Piece.text, pieces_run digits, tail]
            rw [tail]
            intro next member
            simpa [Piece.isRun] using ends next member
        | other c plain =>
            rw [Piece.text, List.singleton_append, pieces, dif_neg (by simp [plain]), tail]

theorem bytesOf_cons (piece : Piece) (others : List Piece) :
    bytesOf (piece :: others) = piece.text.flatMap utf8EncodeChar ++ bytesOf others := by
  rw [bytesOf, List.flatMap_cons, List.flatMap_append]
  rfl

/-! A run of digits as bytes. -/

theorem encode_run {digits : List Char} (isRun : ∀ c ∈ digits, c.isDigit = true) :
    digits.flatMap utf8EncodeChar = digits.map fun c => UInt8.ofNat c.toNat := by
  induction digits with
  | nil => rfl
  | cons c rest ih =>
      obtain ⟨digit, others⟩ := List.forall_mem_cons.mp isRun
      rw [List.flatMap_cons, encode_digit digit, ih others]
      rfl

theorem digits_run {digits : List Char} (isRun : ∀ c ∈ digits, c.isDigit = true) :
    ∀ byte ∈ digits.flatMap utf8EncodeChar, isDigit byte = true := by
  intro byte member
  rw [encode_run isRun] at member
  obtain ⟨c, inside, rfl⟩ := List.mem_map.mp member
  have bounds := char_isDigit_iff.mp (isRun c inside)
  exact (isDigit_ofNat (by omega)).mpr bounds

def placeOf (c : Char) : Nat := c.toNat - 48

theorem ofDigits_eq (digits : List Char) :
    Numeral.ofDigits digits = ofPlaces 0 (digits.map placeOf) := by
  rw [ofPlaces, List.foldl_map]
  rfl

theorem placesOf_lt {digits : List Char} (isRun : ∀ c ∈ digits, c.isDigit = true) :
    ∀ value ∈ digits.map placeOf, value < 10 := by
  intro value member
  obtain ⟨c, inside, rfl⟩ := List.mem_map.mp member
  have bounds := char_isDigit_iff.mp (isRun c inside)
  rw [placeOf]
  omega

theorem digits_of_places {digits : List Char} (isRun : ∀ c ∈ digits, c.isDigit = true) :
    (digits.map placeOf).map (fun value => Char.ofNat (value + 48)) = digits := by
  rw [List.map_map]
  refine (List.map_congr_left fun c inside => ?_).trans (List.map_id digits)
  have bounds := char_isDigit_iff.mp (isRun c inside)
  rw [Function.comp_apply, placeOf, Nat.sub_add_cancel bounds.1, Char.ofNat_toNat]
  rfl

theorem number_run {digits : List Char} (isRun : ∀ c ∈ digits, c.isDigit = true) :
    number (digits.flatMap utf8EncodeChar) = Numeral.ofDigits digits := by
  have places : (digits.map fun c => place (UInt8.ofNat c.toNat)) = digits.map placeOf := by
    apply List.map_congr_left
    intro c inside
    have bounds := char_isDigit_iff.mp (isRun c inside)
    rw [place, UInt8.toNat_ofNat_of_lt' (show c.toNat < 256 by omega)]
    rfl
  rw [number, encode_run isRun, List.map_map, Function.comp_def, places, ofDigits_eq]

theorem compareRuns_run {left right : List Char} (first : ∀ c ∈ left, c.isDigit = true)
    (second : ∀ c ∈ right, c.isDigit = true) :
    compareRuns (left.flatMap utf8EncodeChar) (right.flatMap utf8EncodeChar) =
      (compare (Numeral.ofDigits left) (Numeral.ofDigits right)).then
        (compare left.length right.length) := by
  rw [compareRuns_eq (digits_run first) (digits_run second), number_run first, number_run second,
    encode_run first, encode_run second, List.length_map, List.length_map]

/-! Walking through pieces. -/

theorem bytesOf_ne_nil (piece : Piece) (others : List Piece) : bytesOf (piece :: others) ≠ [] := by
  rw [bytesOf_cons]
  cases piece <;> simp [Piece.text, String.utf8EncodeChar_ne_nil]

theorem ends_bytesOf {others : List Piece} (ends : ∀ next ∈ others.head?, next.isRun = false) :
    ∀ byte ∈ (bytesOf others).head?, isDigit byte = false := by
  cases others with
  | nil =>
      rintro byte ⟨⟩
  | cons piece more =>
      cases piece with
      | run => cases ends _ rfl
      | other c plain =>
          intro byte first
          rw [bytesOf_cons, Piece.text, List.flatMap_singleton, Option.mem_def,
            List.head?_append_of_ne_nil _ String.utf8EncodeChar_ne_nil] at first
          exact not_isDigit_of_encode plain byte (List.mem_of_mem_head? first)

theorem ne_of_isDigit {c d : Char} (digit : c.isDigit = true) (plain : d.isDigit = false) :
    c.toNat ≠ d.toNat := by
  intro same
  rw [Char.toNat_inj.mp same, plain] at digit
  cases digit

/-- One step of a walk takes a piece of either name, unless these tell the names apart. -/
theorem walk_pieces {left right : List Piece} (maximal : AreMaximal left)
    (maximalToo : AreMaximal right) :
    walk (bytesOf left) (bytesOf right) = List.compareLex Piece.compare left right := by
  induction left generalizing right with
  | nil =>
      rw [bytesOf, List.flatMap_nil, List.flatMap_nil, walk_ended]
      cases right with
      | nil => rfl
      | cons y ys =>
          have longer := List.length_pos_iff.mpr (bytesOf_ne_nil y ys)
          exact Nat.compare_eq_lt.mpr longer
  | cons x xs ih =>
      cases right with
      | nil =>
          have longer := List.length_pos_iff.mpr (bytesOf_ne_nil x xs)
          exact (walk_end _).trans (Nat.compare_eq_gt.mpr longer)
      | cons y ys =>
          obtain ⟨ends, others⟩ := List.isChain_cons.mp maximal
          obtain ⟨endsToo, more⟩ := List.isChain_cons.mp maximalToo
          have tail := ih others more
          rw [bytesOf_cons, bytesOf_cons, List.compareLex_cons_cons, ← tail]
          cases x with
          | run c cs digits =>
              cases y with
              | run d ds digitsToo =>
                  have first : ∀ byte ∈ (bytesOf xs).head?, isDigit byte = false :=
                    ends_bytesOf fun next member => by simpa [Piece.isRun] using ends next member
                  have second : ∀ byte ∈ (bytesOf ys).head?, isDigit byte = false :=
                    ends_bytesOf fun next member => by
                      simpa [Piece.isRun] using endsToo next member
                  rw [Piece.text, Piece.text, walk_runs (by simp [String.utf8EncodeChar_ne_nil])
                    (by simp [String.utf8EncodeChar_ne_nil]) (digits_run digits)
                    (digits_run digitsToo) first second, compareRuns_run digits digitsToo]
                  rfl
              | other d plain =>
                  have different := ne_of_isDigit (digits c List.mem_cons_self) plain
                  rw [Piece.text, Piece.text, List.flatMap_cons, List.flatMap_cons,
                    List.append_assoc, List.append_assoc, walk_encode (.inr plain)]
                  exact compare_then different _ _
          | other c plain =>
              cases y with
              | run d ds digits =>
                  have different := ne_of_isDigit (digits d List.mem_cons_self) plain
                  rw [Piece.text, Piece.text, List.flatMap_cons, List.flatMap_cons,
                    List.append_assoc, List.append_assoc, walk_encode (.inl plain)]
                  exact compare_then different.symm _ _
              | other d plainToo =>
                  rw [Piece.text, Piece.text, List.flatMap_singleton, List.flatMap_singleton,
                    walk_encode (.inl plain)]
                  rfl

theorem bytes_eq (name : String) : bytes name = bytesOf (pieces name.toList) := by
  rw [bytesOf, text_pieces, bytes, String.toUTF8_eq_toByteArray, ← String.utf8Encode_toList]
  simp [List.utf8Encode]

theorem compareNames_eq (a b : String) :
    compareNames a b = List.compareLex Piece.compare (pieces a.toList) (pieces b.toList) := by
  rw [compareNames, bytes_eq, bytes_eq]
  exact walk_pieces (areMaximal_pieces _) (areMaximal_pieces _)

end GraphQL.NaturalOrder
