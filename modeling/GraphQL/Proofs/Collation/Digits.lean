import GraphQL.NaturalOrder
import Mathlib.Data.Nat.Digits.Defs

/-!
Numbers that are compared place by place. Where no superfluous zero stands in front, the longer
number is the larger one, and numbers of one length go by their first place that differs. So two runs
of digits are compared by value, however long they are.
-/

namespace GraphQL.NaturalOrder

theorem compare_congr {a b x y : Nat} (less : a < b ↔ x < y) (greater : b < a ↔ y < x) :
    compare a b = compare x y := by
  rcases Nat.lt_trichotomy x y with isLess | rfl | isGreater
  · rw [Nat.compare_eq_lt.mpr isLess, Nat.compare_eq_lt.mpr (less.mpr isLess)]
  · have same : a = b := by omega
    rw [same, Nat.compare_eq_eq.mpr rfl, Nat.compare_eq_eq.mpr rfl]
  · rw [Nat.compare_eq_gt.mpr isGreater, Nat.compare_eq_gt.mpr (greater.mpr isGreater)]

theorem compareLex_map [Ord α] [Ord β] {f : α → β} {left right : List α}
    (keeps : ∀ x ∈ left, ∀ y ∈ right, compare (f x) (f y) = compare x y) :
    List.compareLex compare (left.map f) (right.map f) = List.compareLex compare left right := by
  induction left generalizing right with
  | nil => cases right <;> rfl
  | cons x xs ih =>
      cases right with
      | nil => rfl
      | cons y ys =>
          have tail := ih fun x' first y' second =>
            keeps x' (List.mem_cons_of_mem x first) y' (List.mem_cons_of_mem y second)
          rw [List.map_cons, List.map_cons, List.compareLex_cons_cons, List.compareLex_cons_cons,
            tail, keeps x List.mem_cons_self y List.mem_cons_self]

theorem compare_place {base x y : Nat} (left : x < base) (right : y < base) (m n : Nat) :
    compare (m * base + x) (n * base + y) = (compare m n).then (compare x y) := by
  rcases Nat.lt_trichotomy m n with less | rfl | greater
  · have gap : (m + 1) * base ≤ n * base := Nat.mul_le_mul_right base less
    rw [Nat.compare_eq_lt.mpr less, Nat.compare_eq_lt.mpr (by rw [Nat.add_mul] at gap; omega)]
    rfl
  · rw [Nat.compare_eq_eq.mpr rfl]
    exact compare_congr (by omega) (by omega)
  · have gap : (n + 1) * base ≤ m * base := Nat.mul_le_mul_right base greater
    rw [Nat.compare_eq_gt.mpr greater, Nat.compare_eq_gt.mpr (by rw [Nat.add_mul] at gap; omega)]
    rfl

/-- The number that places spell behind those that are known already. -/
def ofPlaces (known : Nat) (places : List Nat) : Nat :=
  places.foldl (fun number place => number * 10 + place) known

theorem compare_ofPlaces {left right : List Nat} (length : left.length = right.length)
    (leftDigits : ∀ place ∈ left, place < 10) (rightDigits : ∀ place ∈ right, place < 10)
    (m n : Nat) :
    compare (ofPlaces m left) (ofPlaces n right) =
      (compare m n).then (List.compareLex compare left right) := by
  induction left generalizing right m n with
  | nil =>
      obtain rfl := List.length_eq_zero_iff.mp length.symm
      rw [List.compareLex_nil_nil, Ordering.then_eq]
      rfl
  | cons x xs ih =>
      cases right with
      | nil => cases length
      | cons y ys =>
          obtain ⟨first, others⟩ := List.forall_mem_cons.mp leftDigits
          obtain ⟨second, more⟩ := List.forall_mem_cons.mp rightDigits
          have tail := ih (Nat.succ.inj length) others more (m * 10 + x) (n * 10 + y)
          rw [List.compareLex_cons_cons, ← Ordering.then_assoc, ← compare_place first second]
          exact tail

theorem ofPlaces_bounds {places : List Nat} (digits : ∀ place ∈ places, place < 10)
    (known : Nat) :
    known * 10 ^ places.length ≤ ofPlaces known places ∧
      ofPlaces known places < (known + 1) * 10 ^ places.length := by
  induction places generalizing known with
  | nil => simp [ofPlaces]
  | cons place rest ih =>
      obtain ⟨first, others⟩ := List.forall_mem_cons.mp digits
      obtain ⟨lower, upper⟩ := ih others (known * 10 + place)
      have above : known * 10 * 10 ^ rest.length ≤ (known * 10 + place) * 10 ^ rest.length :=
        Nat.mul_le_mul_right _ (Nat.le_add_right _ _)
      have below : (known * 10 + place + 1) * 10 ^ rest.length ≤
          (known + 1) * 10 * 10 ^ rest.length :=
        Nat.mul_le_mul_right _ (by omega)
      rw [List.length_cons, Nat.pow_succ', ← Nat.mul_assoc, ← Nat.mul_assoc]
      exact ⟨Nat.le_trans above lower, Nat.lt_of_lt_of_le upper below⟩

theorem ofPlaces_lt {left right : List Nat} (leftDigits : ∀ place ∈ left, place < 10)
    (rightDigits : ∀ place ∈ right, place < 10) (counts : right.head? ≠ some 0)
    (shorter : left.length < right.length) : ofPlaces 0 left < ofPlaces 0 right := by
  cases right with
  | nil => cases shorter
  | cons place rest =>
      have positive : 1 ≤ place := Nat.pos_of_ne_zero fun zero => counts (by rw [zero]; rfl)
      obtain ⟨_, others⟩ := List.forall_mem_cons.mp rightDigits
      have power : 10 ^ left.length ≤ 10 ^ rest.length :=
        Nat.pow_le_pow_right (by decide) (Nat.le_of_lt_succ shorter)
      calc ofPlaces 0 left
        _ < (0 + 1) * 10 ^ left.length := (ofPlaces_bounds leftDigits 0).2
        _ ≤ 1 * 10 ^ rest.length := Nat.mul_le_mul_left _ power
        _ ≤ place * 10 ^ rest.length := Nat.mul_le_mul_right _ positive
        _ ≤ ofPlaces place rest := (ofPlaces_bounds others place).1
        _ = ofPlaces 0 (place :: rest) := by simp [ofPlaces]

theorem compare_ofPlaces_of_length {left right : List Nat}
    (leftDigits : ∀ place ∈ left, place < 10) (rightDigits : ∀ place ∈ right, place < 10)
    (leftCounts : left.head? ≠ some 0) (rightCounts : right.head? ≠ some 0) :
    (compare left.length right.length).then (List.compareLex compare left right) =
      compare (ofPlaces 0 left) (ofPlaces 0 right) := by
  rcases Nat.lt_trichotomy left.length right.length with shorter | length | longer
  · have less := ofPlaces_lt leftDigits rightDigits rightCounts shorter
    rw [Nat.compare_eq_lt.mpr shorter, Nat.compare_eq_lt.mpr less]
    rfl
  · rw [compare_ofPlaces length leftDigits rightDigits, Nat.compare_eq_eq.mpr length,
      Nat.compare_eq_eq.mpr rfl]
  · have greater := ofPlaces_lt rightDigits leftDigits leftCounts longer
    rw [Nat.compare_eq_gt.mpr longer, Nat.compare_eq_gt.mpr greater]
    rfl

/-! Bytes of digits. -/

theorem isDigit_iff {byte : UInt8} : isDigit byte = true ↔ 48 ≤ byte.toNat ∧ byte.toNat ≤ 57 := by
  simp [isDigit, UInt8.le_iff_toNat_le]

def place (byte : UInt8) : Nat := byte.toNat - 48

def number (run : List UInt8) : Nat := ofPlaces 0 (run.map place)

theorem place_lt {byte : UInt8} (digit : isDigit byte = true) : place byte < 10 := by
  have bounds := isDigit_iff.mp digit
  rw [place]
  omega

theorem number_significant (run : List UInt8) : number (significant run) = number run := by
  induction run with
  | nil => rfl
  | cons byte rest ih =>
      by_cases zero : byte = 0x30
      · subst zero
        rw [significant, List.dropWhile_cons_of_pos (by decide)]
        exact ih
      · rw [significant, List.dropWhile_cons_of_neg (by simpa using zero)]

section
variable {run : List UInt8} (digits : ∀ byte ∈ run, isDigit byte = true)
include digits

theorem digits_significant : ∀ byte ∈ significant run, isDigit byte = true :=
  fun byte member => digits byte ((List.dropWhile_sublist _).mem member)

theorem places_lt : ∀ value ∈ run.map place, value < 10 := by
  intro value member
  obtain ⟨byte, inside, rfl⟩ := List.mem_map.mp member
  exact place_lt (digits byte inside)

theorem significant_counts : ((significant run).map place).head? ≠ some 0 := by
  intro zero
  rw [List.head?_map, Option.map_eq_some_iff] at zero
  obtain ⟨byte, first, isZero⟩ := zero
  have bounds := isDigit_iff.mp (digits_significant digits byte (List.mem_of_mem_head? first))
  have fails := List.head?_dropWhile_not (fun byte => byte == 0x30) run
  rw [significant] at first
  rw [first] at fails
  have other : byte ≠ 0x30 := by simpa using fails
  refine other (UInt8.toNat_inj.mp ?_)
  show byte.toNat = 48
  rw [place] at isZero
  omega

end

theorem compare_digits {left right : List UInt8} (first : ∀ byte ∈ left, isDigit byte = true)
    (second : ∀ byte ∈ right, isDigit byte = true) :
    compare left right = List.compareLex compare (left.map place) (right.map place) := by
  rw [List.compare_eq_compareLex, compareLex_map]
  intro c isLeft d isRight
  have left := isDigit_iff.mp (first c isLeft)
  have right := isDigit_iff.mp (second d isRight)
  rw [UInt8.compare_eq_toNat_compare_toNat]
  apply compare_congr <;> rw [place, place] <;> omega

/-- Runs are compared by their numbers, and equal numbers by the lengths of their runs. -/
theorem compareRuns_eq {a b : List UInt8} (first : ∀ byte ∈ a, isDigit byte = true)
    (second : ∀ byte ∈ b, isDigit byte = true) :
    compareRuns a b = (compare (number a) (number b)).then (compare a.length b.length) := by
  have left := digits_significant first
  have right := digits_significant second
  have numbers := compare_ofPlaces_of_length (places_lt left) (places_lt right)
    (significant_counts first) (significant_counts second)
  rw [List.length_map, List.length_map, ← compare_digits left right] at numbers
  rw [compareRuns, ← Ordering.then_assoc, numbers, ← number_significant a, ← number_significant b]
  rfl

end GraphQL.NaturalOrder
