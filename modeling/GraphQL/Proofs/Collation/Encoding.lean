import GraphQL.Proofs.Collation.Digits

/-!
Names as the bytes of their characters. Bytes in UTF-8 are in the order of the code points, and none
of a longer character is a digit, so a walk through bytes compares character by character.
-/

namespace GraphQL.NaturalOrder

open String (utf8EncodeChar)

theorem compare_add (a b offset : Nat) : compare (a + offset) (b + offset) = compare a b :=
  compare_congr (by omega) (by omega)

theorem compare_sixBits (v w : Nat) :
    compare v w = (compare (v / 64) (w / 64)).then (compare (v % 64) (w % 64)) := by
  have left : v % 64 < 64 := Nat.mod_lt v (by decide)
  have right : w % 64 < 64 := Nat.mod_lt w (by decide)
  rw [← compare_place left right, Nat.div_add_mod', Nat.div_add_mod']

/-- The bytes of a code point, as numbers: six bits in each but the first. -/
def units (code : Nat) : List Nat :=
  if code < 0x80 then [code]
  else if code < 0x800 then [code / 64 + 0xC0, code % 64 + 0x80]
  else if code < 0x10000 then
    [code / 64 / 64 + 0xE0, code / 64 % 64 + 0x80, code % 64 + 0x80]
  else
    [code / 64 / 64 / 64 + 0xF0, code / 64 / 64 % 64 + 0x80, code / 64 % 64 + 0x80,
      code % 64 + 0x80]

theorem units_cases (code : Nat) :
    (code < 0x80 ∧ units code = [code]) ∨
    (0x80 ≤ code ∧ code < 0x800 ∧ units code = [code / 64 + 0xC0, code % 64 + 0x80]) ∨
    (0x800 ≤ code ∧ code < 0x10000 ∧
      units code = [code / 64 / 64 + 0xE0, code / 64 % 64 + 0x80, code % 64 + 0x80]) ∨
    (0x10000 ≤ code ∧
      units code = [code / 64 / 64 / 64 + 0xF0, code / 64 / 64 % 64 + 0x80, code / 64 % 64 + 0x80,
        code % 64 + 0x80]) := by
  unfold units
  by_cases one : code < 0x80
  · exact .inl ⟨one, if_pos one⟩
  rw [if_neg one]
  by_cases two : code < 0x800
  · exact .inr (.inl ⟨Nat.le_of_not_lt one, two, if_pos two⟩)
  rw [if_neg two]
  by_cases three : code < 0x10000
  · exact .inr (.inr (.inl ⟨Nat.le_of_not_lt two, three, if_pos three⟩))
  · exact .inr (.inr (.inr ⟨Nat.le_of_not_lt three, if_neg three⟩))

theorem toNat_lt (c : Char) : c.toNat < 0x110000 := by
  rcases c.valid with low | high
  · exact Nat.lt_trans low (by decide)
  · exact high.2

theorem units_lt {code : Nat} (bound : code < 0x110000) : ∀ unit ∈ units code, unit < 256 := by
  rcases units_cases code with ⟨_, same⟩ | ⟨_, _, same⟩ | ⟨_, _, same⟩ | ⟨_, same⟩ <;>
    simp only [same, List.forall_mem_cons] <;> simp <;> omega

theorem encode_eq (c : Char) : utf8EncodeChar c = (units c.toNat).map UInt8.ofNat := by
  have bound := toNat_lt c
  have code : c.val.toNat = c.toNat := rfl
  simp only [utf8EncodeChar, code]
  rcases units_cases c.toNat with ⟨one, same⟩ | ⟨large, two, same⟩ | ⟨large, three, same⟩ |
    ⟨large, same⟩
  · rw [same, if_pos (by omega)]
    rfl
  · have lead : c.toNat / 64 % 32 = c.toNat / 64 := by omega
    rw [same, if_neg (by omega), if_pos (by omega), lead]
    rfl
  · have lead : c.toNat / 4096 % 16 = c.toNat / 64 / 64 := by omega
    rw [same, if_neg (by omega), if_neg (by omega), if_pos (by omega), lead]
    rfl
  · have lead : c.toNat / 262144 % 8 = c.toNat / 64 / 64 / 64 := by omega
    have second : c.toNat / 4096 = c.toNat / 64 / 64 := by omega
    rw [same, if_neg (by omega), if_neg (by omega), if_neg (by omega), lead, second]
    rfl

theorem compare_units {v w : Nat} (length : (units v).length = (units w).length) :
    List.compareLex compare (units v) (units w) = compare v w := by
  rcases units_cases v with ⟨_, left⟩ | ⟨_, _, left⟩ | ⟨_, _, left⟩ | ⟨_, left⟩ <;>
    rcases units_cases w with ⟨_, right⟩ | ⟨_, _, right⟩ | ⟨_, _, right⟩ | ⟨_, right⟩ <;>
    simp only [left, right, List.length_cons, List.length_nil, Nat.reduceAdd, Nat.reduceEqDiff,
      List.compareLex_cons_cons, List.compareLex_nil_nil, Ordering.then_eq, compare_add]
      at length ⊢
  · exact (compare_sixBits v w).symm
  · rw [compare_sixBits v w, compare_sixBits (v / 64) (w / 64), Ordering.then_assoc]
  · rw [compare_sixBits v w, compare_sixBits (v / 64) (w / 64),
      compare_sixBits (v / 64 / 64) (w / 64 / 64), Ordering.then_assoc, Ordering.then_assoc]

theorem compare_lead {v w : Nat} (bound : v < 0x110000) (boundToo : w < 0x110000)
    (length : (units v).length ≠ (units w).length) :
    ∃ x xs y ys, units v = x :: xs ∧ units w = y :: ys ∧ compare x y = compare v w ∧ v ≠ w := by
  rcases units_cases v with ⟨_, left⟩ | ⟨_, _, left⟩ | ⟨_, _, left⟩ | ⟨_, left⟩ <;>
    rcases units_cases w with ⟨_, right⟩ | ⟨_, _, right⟩ | ⟨_, _, right⟩ | ⟨_, right⟩ <;>
    rw [left, right] at length <;>
    first
    | exact absurd rfl length
    | exact ⟨_, _, _, _, left, right, compare_congr (by omega) (by omega), by omega⟩

/-! Digits among the characters and among the bytes. -/

theorem char_isDigit_iff {c : Char} : c.isDigit = true ↔ 48 ≤ c.toNat ∧ c.toNat ≤ 57 := by
  simp only [Char.isDigit, Bool.and_eq_true, decide_eq_true_eq, ge_iff_le, UInt32.le_iff_toNat_le]
  rfl

theorem encode_digit {c : Char} (digit : c.isDigit = true) :
    utf8EncodeChar c = [UInt8.ofNat c.toNat] := by
  have bounds := char_isDigit_iff.mp digit
  rw [encode_eq, units, if_pos (by omega)]
  rfl

theorem isDigit_ofNat {code : Nat} (small : code < 256) :
    isDigit (UInt8.ofNat code) = true ↔ 48 ≤ code ∧ code ≤ 57 := by
  rw [isDigit_iff, UInt8.toNat_ofNat_of_lt' small]

theorem not_isDigit_of_encode {c : Char} (plain : c.isDigit = false) :
    ∀ byte ∈ utf8EncodeChar c, isDigit byte = false := by
  intro byte member
  rw [encode_eq] at member
  obtain ⟨unit, inside, rfl⟩ := List.mem_map.mp member
  refine Bool.eq_false_iff.mpr fun digit => ?_
  have bounds := (isDigit_ofNat (units_lt (toNat_lt c) unit inside)).mp digit
  have outside : ¬(48 ≤ c.toNat ∧ c.toNat ≤ 57) := fun inRange =>
    Bool.eq_false_iff.mp plain (char_isDigit_iff.mpr inRange)
  rcases units_cases c.toNat with ⟨_, same⟩ | ⟨_, _, same⟩ | ⟨_, _, same⟩ | ⟨_, same⟩ <;>
    simp only [same, List.mem_cons, List.not_mem_nil, or_false] at inside <;> omega

/-! Walking through bytes. -/

theorem walk_ended (right : List UInt8) : walk [] right = compare 0 right.length := by
  cases right <;> simp [walk]

theorem walk_end (left : List UInt8) : walk left [] = compare left.length 0 := by
  cases left <;> simp [walk]

theorem walk_apart {c d : UInt8} (apart : isDigit c = false ∨ isDigit d = false)
    (cs ds : List UInt8) : walk (c :: cs) (d :: ds) = (compare c d).then (walk cs ds) := by
  have none : (isDigit c && isDigit d) = false := Bool.and_eq_false_iff.mpr apart
  rw [walk, none]
  rfl

theorem walk_runs {left right : List UInt8} (some' : left ≠ []) (more : right ≠ [])
    (first : ∀ byte ∈ left, isDigit byte = true) (second : ∀ byte ∈ right, isDigit byte = true)
    {s t : List UInt8} (ends : ∀ byte ∈ s.head?, isDigit byte = false)
    (endsToo : ∀ byte ∈ t.head?, isDigit byte = false) :
    walk (left ++ s) (right ++ t) = (compareRuns left right).then (walk s t) := by
  have taken {run rest : List UInt8} (digits : ∀ byte ∈ run, isDigit byte = true)
      (halts : ∀ byte ∈ rest.head?, isDigit byte = false) :
      (run ++ rest).takeWhile isDigit = run ∧ (run ++ rest).dropWhile isDigit = rest := by
    rw [List.takeWhile_append_of_pos digits, List.dropWhile_append_of_pos digits]
    cases rest with
    | nil => simp
    | cons byte others => simp [halts byte rfl]
  cases left with
  | nil => exact absurd rfl some'
  | cons c cs =>
      cases right with
      | nil => exact absurd rfl more
      | cons d ds =>
          obtain ⟨isFirst, others⟩ := List.forall_mem_cons.mp first
          obtain ⟨isSecond, rest⟩ := List.forall_mem_cons.mp second
          obtain ⟨takes, drops⟩ := taken others ends
          obtain ⟨takesToo, dropsToo⟩ := taken rest endsToo
          rw [List.cons_append, List.cons_append, walk, isFirst, isSecond, takes, takesToo, drops,
            dropsToo]
          rfl

theorem walk_bytes {left right : List UInt8} (length : left.length = right.length)
    (apart : (∀ byte ∈ left, isDigit byte = false) ∨ ∀ byte ∈ right, isDigit byte = false)
    (s t : List UInt8) :
    walk (left ++ s) (right ++ t) = (List.compareLex compare left right).then (walk s t) := by
  induction left generalizing right with
  | nil =>
      obtain rfl := List.length_eq_zero_iff.mp length.symm
      rfl
  | cons c cs ih =>
      cases right with
      | nil => cases length
      | cons d ds =>
          rw [List.forall_mem_cons, List.forall_mem_cons] at apart
          have tail := ih (Nat.succ.inj length) (apart.imp And.right And.right)
          rw [List.cons_append, List.cons_append, walk_apart (apart.imp And.left And.left), tail,
            List.compareLex_cons_cons, Ordering.then_assoc]

theorem compare_then {m n : Nat} (different : m ≠ n) (left right : Ordering) :
    (compare m n).then left = (compare m n).then right := by
  rcases Nat.lt_or_gt_of_ne different with less | greater
  · rw [Nat.compare_eq_lt.mpr less]
    rfl
  · rw [Nat.compare_eq_gt.mpr greater]
    rfl

/-- Characters are compared by code point, unless both are digits. -/
theorem walk_encode {c d : Char} (apart : c.isDigit = false ∨ d.isDigit = false)
    (s t : List UInt8) :
    walk (utf8EncodeChar c ++ s) (utf8EncodeChar d ++ t) =
      (compare c.toNat d.toNat).then (walk s t) := by
  have plain := apart.imp not_isDigit_of_encode not_isDigit_of_encode
  rw [encode_eq, encode_eq] at plain ⊢
  have bytes : ∀ x ∈ units c.toNat, ∀ y ∈ units d.toNat,
      compare (UInt8.ofNat x) (UInt8.ofNat y) = compare x y := by
    intro x first y second
    rw [UInt8.compare_eq_toNat_compare_toNat,
      UInt8.toNat_ofNat_of_lt' (units_lt (toNat_lt c) x first),
      UInt8.toNat_ofNat_of_lt' (units_lt (toNat_lt d) y second)]
  by_cases length : (units c.toNat).length = (units d.toNat).length
  · rw [walk_bytes (by simpa using length) plain, compareLex_map bytes, compare_units length]
  · obtain ⟨x, xs, y, ys, left, right, lead, different⟩ :=
      compare_lead (toNat_lt c) (toNat_lt d) length
    rw [left, right] at bytes plain ⊢
    have first := bytes x List.mem_cons_self y List.mem_cons_self
    have apart := plain.imp (fun all => all _ List.mem_cons_self) fun all =>
      all _ List.mem_cons_self
    rw [List.map_cons, List.map_cons, List.cons_append, List.cons_append, walk_apart apart, first,
      lead]
    exact compare_then different _ _

end GraphQL.NaturalOrder
