import GraphQL.Proofs.Collation.Pieces

/-!
The natural order of names. It is total, tells any two names apart, and is the lexicographic order
of their pieces.
-/

namespace GraphQL.NaturalOrder

open Std

namespace Piece

/-- The code point that a piece goes by. All digits stand together, so zero does for any run. -/
def code : Piece → Nat
  | run .. => 48
  | other c _ => c.toNat

def value : Piece → Nat
  | run c cs _ => Numeral.ofDigits (c :: cs)
  | other .. => 0

def size : Piece → Nat
  | run c cs _ => (c :: cs).length
  | other .. => 0

theorem code_of_plain {c d : Char} (digit : d.isDigit = true) (plain : c.isDigit = false) :
    (c.toNat < d.toNat ↔ c.toNat < 48) ∧ (d.toNat < c.toNat ↔ 48 < c.toNat) ∧ c.toNat ≠ 48 := by
  have bounds := char_isDigit_iff.mp digit
  have outside : ¬(48 ≤ c.toNat ∧ c.toNat ≤ 57) := fun inRange =>
    Bool.eq_false_iff.mp plain (char_isDigit_iff.mpr inRange)
  omega

theorem compare_eq (x y : Piece) :
    x.compare y =
      compareLex (compareOn code) (compareLex (compareOn value) (compareOn size)) x y := by
  cases x with
  | run c cs digits =>
      cases y with
      | run d ds digitsToo => rfl
      | other d plain =>
          have digit := digits c List.mem_cons_self
          obtain ⟨less, greater, different⟩ := code_of_plain digit plain
          have same : Ord.compare c.toNat d.toNat = Ord.compare 48 d.toNat :=
            compare_congr greater less
          exact (same.trans Ordering.then_eq.symm).trans (compare_then different.symm _ _)
  | other c plain =>
      cases y with
      | run d ds digits =>
          have digit := digits d List.mem_cons_self
          obtain ⟨less, greater, different⟩ := code_of_plain digit plain
          have same : Ord.compare c.toNat d.toNat = Ord.compare c.toNat 48 :=
            compare_congr less greater
          exact (same.trans Ordering.then_eq.symm).trans (compare_then different _ _)
      | other d plainToo => exact Ordering.then_eq.symm

theorem digits_injective {left right : List Char} (first : ∀ c ∈ left, c.isDigit = true)
    (second : ∀ c ∈ right, c.isDigit = true) (length : left.length = right.length)
    (same : Numeral.ofDigits left = Numeral.ofDigits right) : left = right := by
  have lengths : (left.map placeOf).length = (right.map placeOf).length := by
    rw [List.length_map, List.length_map, length]
  have compared := compare_ofPlaces lengths (placesOf_lt first) (placesOf_lt second) 0 0
  rw [← ofDigits_eq, ← ofDigits_eq, same, Nat.compare_eq_eq.mpr rfl, Nat.compare_eq_eq.mpr rfl]
    at compared
  have places : left.map placeOf = right.map placeOf := LawfulEqCmp.eq_of_compare compared.symm
  rw [← digits_of_places first, places, digits_of_places second]

theorem eq_of_compare {x y : Piece} (same : x.compare y = .eq) : x = y := by
  cases x with
  | run c cs digits =>
      cases y with
      | run d ds digitsToo =>
          obtain ⟨number, length⟩ := Ordering.then_eq_eq.mp same
          have text := digits_injective digits digitsToo (Nat.compare_eq_eq.mp length)
            (Nat.compare_eq_eq.mp number)
          injection text with head tail
          subst head tail
          rfl
      | other d plain =>
          exact absurd (Nat.compare_eq_eq.mp same)
            (ne_of_isDigit (digits c List.mem_cons_self) plain)
  | other c plain =>
      cases y with
      | run d ds digits =>
          exact absurd (Nat.compare_eq_eq.mp same).symm
            (ne_of_isDigit (digits d List.mem_cons_self) plain)
      | other d plainToo =>
          obtain rfl := Char.toNat_inj.mp (Nat.compare_eq_eq.mp same)
          rfl

instance : TransCmp compare := by
  have same : compare = compareLex (compareOn code)
      (compareLex (compareOn value) (compareOn size)) := by
    funext x y
    exact compare_eq x y
  rw [same]
  infer_instance

instance : LawfulEqCmp compare where
  eq_of_compare := eq_of_compare

end Piece

theorem pieces_injective {left right : List Char} (same : pieces left = pieces right) :
    left = right := by
  rw [← text_pieces left, same, text_pieces]

instance : TransCmp compareNames where
  eq_swap {a b} := by
    rw [compareNames_eq, compareNames_eq]
    exact OrientedCmp.eq_swap
  isLE_trans {a b c} first second := by
    rw [compareNames_eq] at first second ⊢
    exact TransCmp.isLE_trans first second

instance : LawfulEqCmp compareNames where
  eq_of_compare {a b} same := by
    rw [compareNames_eq] at same
    exact String.toList_injective (pieces_injective (LawfulEqCmp.eq_of_compare same))

/-- Names are totally ordered, by the pieces that they are cut into: runs of digits by number and
then by length, other characters by code point. A name comes in front of any that it begins. -/
theorem compareNames_lawful :
    (∀ a b, compareNames a b = (compareNames b a).swap) ∧
    (∀ a b, compareNames a b = .eq ↔ a = b) ∧
    (∀ a b c, compareNames a b = .lt → compareNames b c = .lt → compareNames a c = .lt) ∧
    (∀ a b, compareNames a b =
      List.compareLex Piece.compare (pieces a.toList) (pieces b.toList)) ∧
    ∀ text parts, pieces text = parts ↔ parts.flatMap Piece.text = text ∧ AreMaximal parts := by
  refine ⟨fun a b => OrientedCmp.eq_swap, fun a b => LawfulEqCmp.compare_eq_iff_eq, ?_,
    compareNames_eq, fun _ _ => pieces_eq_iff⟩
  intro a b c first second
  exact TransCmp.lt_trans first second

/-- A number counts as a whole, and a zero in front of it only where nothing else differs. -/
theorem compareNames_lawful_number :
    compareNames "file2" "file11" = .lt ∧ compareNames "file11" "file011" = .lt ∧
      compareNames "file2" "file011" = .lt := by
  have smaller : compareNames "file2" "file11" = .lt := by
    rw [compareNames_eq]
    decide +kernel
  have shorter : compareNames "file11" "file011" = .lt := by
    rw [compareNames_eq]
    decide +kernel
  exact ⟨smaller, shorter, compareNames_lawful.2.2.1 _ _ _ smaller shorter⟩

end GraphQL.NaturalOrder
