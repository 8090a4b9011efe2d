import Mathlib.Data.List.Perm.Basic

/-!
Things that have keys, sorted by them. A stable sort keeps the order of what stands under one key,
and so it comes to the same list from every other order that does.
-/

namespace GraphQL

/-- A total order of keys, as a test whether one may stand in front of another. -/
structure OrdersKeys (le : κ → κ → Bool) : Prop where
  trans : ∀ a b c, le a b = true → le b c = true → le a c = true
  total : ∀ a b, (le a b || le b a) = true
  antisymm : ∀ {a b}, le a b = true → le b a = true → a = b

theorem OrdersKeys.refl {le : κ → κ → Bool} (orders : OrdersKeys le) (a : κ) : le a a = true := by
  simpa using orders.total a a

variable [DecidableEq κ] {key : α → κ} {left middle right : List α}

/-- The same things in another order, in which those under one key keep theirs. -/
def Reordered (key : α → κ) (left right : List α) : Prop :=
  ∀ wanted, left.filter (fun item => key item = wanted) =
    right.filter (fun item => key item = wanted)

namespace Reordered

theorem symm (reordered : Reordered key left right) : Reordered key right left := fun wanted =>
  (reordered wanted).symm

theorem trans (first : Reordered key left middle) (second : Reordered key middle right) :
    Reordered key left right := fun wanted => (first wanted).trans (second wanted)

theorem mem (reordered : Reordered key left right) {item : α} (member : item ∈ left) :
    item ∈ right := by
  have same := reordered (key item)
  have found : item ∈ left.filter fun other => key other = key item := by simp [member]
  rw [same] at found
  exact (List.mem_filter.mp found).1

theorem tail {item : α} (reordered : Reordered key (item :: left) (item :: right)) :
    Reordered key left right := by
  intro wanted
  have same := reordered wanted
  by_cases here : key item = wanted
  · simpa [here] using same
  · simpa [here] using same

theorem perm (reordered : Reordered key left right) : left.Perm right := by
  induction left generalizing right with
  | nil =>
      have none : right = [] := List.eq_nil_iff_forall_not_mem.mpr fun item member =>
        List.not_mem_nil (reordered.symm.mem member)
      rw [none]
  | cons item rest ih =>
      have same := reordered (key item)
      simp only [List.filter_cons_of_pos, decide_true] at same
      obtain ⟨before, after, rfl, earlier, _, _⟩ := List.filter_eq_cons_iff.mp same.symm
      have brought : Reordered key (before ++ item :: after) (item :: (before ++ after)) := by
        intro wanted
        by_cases here : key item = wanted
        · have none : before.filter (fun other => key other = wanted) = [] := by
            subst here
            simpa [List.filter_eq_nil_iff] using earlier
          simp [here, none]
        · simp [here]
      exact ((ih (reordered.trans brought).tail).cons item).trans List.perm_middle.symm

theorem map {change : α → β} {other : β → κ} (keeps : ∀ item, other (change item) = key item)
    (reordered : Reordered key left right) :
    Reordered other (left.map change) (right.map change) := by
  intro wanted
  have same := congrArg (List.map change) (reordered wanted)
  simpa [List.filter_map, Function.comp_def, keeps] using same

theorem filterMap {change : α → Option β} {other : β → κ}
    (keeps : ∀ item made, change item = some made → other made = key item)
    (reordered : Reordered key left right) :
    Reordered other (left.filterMap change) (right.filterMap change) := by
  intro wanted
  have before (items : List α) :
      (items.filterMap change).filter (fun made => other made = wanted) =
        (items.filter fun item => key item = wanted).filterMap change := by
    rw [List.filter_filterMap, List.filterMap_filter]
    apply List.filterMap_congr
    intro item _
    cases eq : change item with
    | none => simp
    | some made => simp [keeps item made eq, Option.filter_some]
  rw [before, before, reordered wanted]

end Reordered

section
variable {le : κ → κ → Bool} (orders : OrdersKeys le)
include orders

/-- Lists that go by ascending keys differ in nothing, if they hold the same under each key. -/
theorem Reordered.eq_of_ascending (reordered : Reordered key left right)
    (first : left.Pairwise fun a b => le (key a) (key b) = true)
    (second : right.Pairwise fun a b => le (key a) (key b) = true) : left = right := by
  induction left generalizing right with
  | nil => exact reordered.perm.nil_eq
  | cons item rest ih =>
      cases right with
      | nil => exact absurd reordered.perm.eq_nil (List.cons_ne_nil _ _)
      | cons other others =>
          rw [List.pairwise_cons] at first second
          have ahead : le (key item) (key other) = true := by
            cases reordered.symm.mem List.mem_cons_self with
            | head => exact orders.refl _
            | tail _ member => exact first.1 other member
          have behind : le (key other) (key item) = true := by
            cases reordered.mem List.mem_cons_self with
            | head => exact orders.refl _
            | tail _ member => exact second.1 item member
          have sameKey := orders.antisymm ahead behind
          have sameFront := reordered (key item)
          simp only [List.filter_cons_of_pos, decide_true, ← sameKey] at sameFront
          obtain rfl := (List.cons.inj sameFront).1
          rw [ih reordered.tail first.2 second.2]

omit [DecidableEq κ] in
theorem pairwise_sortedBy (items : List α) :
    (items.mergeSort fun a b => le (key a) (key b)).Pairwise
      fun a b => le (key a) (key b) = true := by
  apply List.pairwise_mergeSort
  · intro a b c
    exact orders.trans (key a) (key b) (key c)
  · intro a b
    exact orders.total (key a) (key b)

/-- Sorting by keys is stable. -/
theorem reordered_sortedBy (items : List α) :
    Reordered key (items.mergeSort fun a b => le (key a) (key b)) items := by
  intro wanted
  have ascending : (items.filter fun item => key item = wanted).Pairwise
      fun a b => le (key a) (key b) = true := by
    apply List.pairwise_of_forall_mem_list
    intro a first b second
    have keys : key a = key b := by
      simp only [List.mem_filter, decide_eq_true_eq] at first second
      rw [first.2, second.2]
    rw [keys]
    exact orders.refl _
  have kept : (items.filter fun item => key item = wanted).Sublist
      (items.mergeSort fun a b => le (key a) (key b)) := by
    apply List.sublist_mergeSort _ _ ascending List.filter_sublist
    · intro a b c
      exact orders.trans (key a) (key b) (key c)
    · intro a b
      exact orders.total (key a) (key b)
  have inside := kept.filter fun item => key item = wanted
  rw [List.filter_filter] at inside
  simp only [Bool.and_self] at inside
  exact (inside.eq_of_length ((List.mergeSort_perm items _).symm.filter _).length_eq).symm

theorem sortedBy_eq_of_reordered (reordered : Reordered key left right) :
    (left.mergeSort fun a b => le (key a) (key b)) =
      right.mergeSort fun a b => le (key a) (key b) := by
  have same := ((reordered_sortedBy orders left).trans reordered).trans
    (reordered_sortedBy orders right).symm
  exact same.eq_of_ascending orders (pairwise_sortedBy orders left)
    (pairwise_sortedBy orders right)

end

end GraphQL
