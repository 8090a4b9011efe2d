import GraphQL.Proofs.Collation
import GraphQL.Proofs.Keyed
import GraphQL.Tree.Sorted

/-!
Values with their fields in order. Of all values that differ only in how their fields are arranged,
exactly one has the fields of every object in natural order, and sorting comes to it from any of
them. Fields of one name are never exchanged.
-/

namespace GraphQL

namespace NaturalOrder

open Std

theorem inOrder_iff {a b : String} : inOrder a b = true ↔ (compareNames a b).isLE = true := by
  unfold inOrder
  cases compareNames a b <;> decide

theorem ordersKeys : OrdersKeys inOrder where
  trans a b c first second := by
    rw [inOrder_iff] at first second ⊢
    exact TransCmp.isLE_trans first second
  total a b := by
    have swapped : compareNames a b = (compareNames b a).swap := OrientedCmp.eq_swap
    unfold inOrder
    rw [swapped]
    cases compareNames b a <;> decide
  antisymm first second := by
    rw [inOrder_iff] at first second
    exact LawfulEqCmp.eq_of_compare (OrientedCmp.isLE_antisymm first second)

end NaturalOrder

def ObjectField.key (field : ObjectField) : String := field.name.value

def ObjectField.sorted (field : ObjectField) : ObjectField :=
  { field with value := field.value.sorted }

mutual

/-- The second value is the first one with the fields of some objects in it arranged in another
way, at any depth. Fields of one name stay in their order, and nothing else is changed. -/
inductive Value.Rearranged : Value → Value → Prop
  | same (value : Value) : Value.Rearranged value value
  | list {items others : List Value} (each : ItemsRearranged items others)
      (loc : Option Location) : Value.Rearranged (.list items loc) (.list others loc)
  | object {fields middle others : List ObjectField} (each : FieldsRearranged fields middle)
      (reordered : Reordered ObjectField.key middle others) (loc : Option Location) :
      Value.Rearranged (.object fields loc) (.object others loc)

inductive ItemsRearranged : List Value → List Value → Prop
  | nil : ItemsRearranged [] []
  | cons {item other : Value} {items others : List Value} (first : item.Rearranged other)
      (rest : ItemsRearranged items others) : ItemsRearranged (item :: items) (other :: others)

inductive FieldsRearranged : List ObjectField → List ObjectField → Prop
  | nil : FieldsRearranged [] []
  | cons {value other : Value} {fields others : List ObjectField} (name : Name)
      (loc : Option Location) (first : value.Rearranged other)
      (rest : FieldsRearranged fields others) :
      FieldsRearranged (⟨name, value, loc⟩ :: fields) (⟨name, other, loc⟩ :: others)

end

mutual

/-- The fields of every object inside the value are in natural order. -/
def Value.InOrder : Value → Prop
  | .list items _ => ItemsInOrder items
  | .object fields _ =>
      (fields.Pairwise fun a b => a.inOrder b = true) ∧ FieldsInOrder fields
  | .var _ | .int _ _ | .float _ _ | .string _ | .boolean _ _ | .null _ | .enum _ _ => True

def ItemsInOrder : List Value → Prop
  | [] => True
  | item :: rest => item.InOrder ∧ ItemsInOrder rest

def FieldsInOrder : List ObjectField → Prop
  | [] => True
  | ⟨_, value, _⟩ :: rest => value.InOrder ∧ FieldsInOrder rest

end

theorem sortedFields_eq (fields : List ObjectField) :
    sortedFields fields = fields.map ObjectField.sorted := by
  induction fields with
  | nil => rfl
  | cons field rest ih =>
      cases field
      rw [sortedFields, ih]
      rfl

theorem fieldsInOrder_iff {fields : List ObjectField} :
    FieldsInOrder fields ↔ ∀ field ∈ fields, field.value.InOrder := by
  induction fields with
  | nil => simp [FieldsInOrder]
  | cons field rest ih =>
      obtain ⟨name, value, loc⟩ := field
      simp [FieldsInOrder, ih]

theorem Reordered.sortedFields {fields others : List ObjectField}
    (reordered : Reordered ObjectField.key fields others) :
    Reordered ObjectField.key (sortedFields fields) (sortedFields others) := by
  rw [sortedFields_eq, sortedFields_eq]
  exact reordered.map fun _ => rfl

theorem sortFields_ascending (fields : List ObjectField) :
    (fields.mergeSort ObjectField.inOrder).Pairwise fun a b => a.inOrder b = true :=
  pairwise_sortedBy NaturalOrder.ordersKeys fields

/-- Sorting the fields of an object exchanges no two of one name. -/
theorem sortFields_reordered (fields : List ObjectField) :
    Reordered ObjectField.key (fields.mergeSort ObjectField.inOrder) fields :=
  reordered_sortedBy NaturalOrder.ordersKeys fields

theorem sortFields_eq_of_reordered {fields others : List ObjectField}
    (reordered : Reordered ObjectField.key fields others) :
    fields.mergeSort ObjectField.inOrder = others.mergeSort ObjectField.inOrder := by
  have same := sortedBy_eq_of_reordered NaturalOrder.ordersKeys reordered
  exact same

mutual

theorem Value.rearranged_sorted : (value : Value) → value.Rearranged value.sorted
  | .list items loc => .list (itemsRearranged_sorted items) loc
  | .object fields loc =>
      .object (fieldsRearranged_sorted fields) (sortFields_reordered (sortedFields fields)).symm loc
  | .var _ | .int _ _ | .float _ _ | .string _ | .boolean _ _ | .null _ | .enum _ _ => .same _

theorem itemsRearranged_sorted : (items : List Value) → ItemsRearranged items (sortedItems items)
  | [] => .nil
  | item :: rest => .cons item.rearranged_sorted (itemsRearranged_sorted rest)

theorem fieldsRearranged_sorted : (fields : List ObjectField) →
    FieldsRearranged fields (sortedFields fields)
  | [] => .nil
  | ⟨name, value, loc⟩ :: rest =>
      .cons name loc value.rearranged_sorted (fieldsRearranged_sorted rest)

end

mutual

theorem Value.inOrder_sorted : (value : Value) → value.sorted.InOrder
  | .list items _ => itemsInOrder_sorted items
  | .object fields _ => by
      constructor
      · exact sortFields_ascending (sortedFields fields)
      · rw [fieldsInOrder_iff]
        intro field member
        have each := fieldsInOrder_iff.mp (fieldsInOrder_sorted fields)
        exact each field (List.mem_mergeSort.mp member)
  | .var _ | .int _ _ | .float _ _ | .string _ | .boolean _ _ | .null _ | .enum _ _ => trivial

theorem itemsInOrder_sorted : (items : List Value) → ItemsInOrder (sortedItems items)
  | [] => trivial
  | item :: rest => ⟨item.inOrder_sorted, itemsInOrder_sorted rest⟩

theorem fieldsInOrder_sorted : (fields : List ObjectField) → FieldsInOrder (sortedFields fields)
  | [] => trivial
  | ⟨_, value, _⟩ :: rest => ⟨value.inOrder_sorted, fieldsInOrder_sorted rest⟩

end

mutual

theorem Value.sorted_of_inOrder : (value : Value) → value.InOrder → value.sorted = value
  | .list items loc, ordered => by
      rw [Value.sorted, sortedItems_of_inOrder items ordered]
  | .object fields loc, ordered => by
      rw [Value.sorted, sortedFields_of_inOrder fields ordered.2,
        List.mergeSort_of_pairwise ordered.1]
  | .var _, _ | .int _ _, _ | .float _ _, _ | .string _, _ | .boolean _ _, _ | .null _, _
  | .enum _ _, _ => rfl

theorem sortedItems_of_inOrder : (items : List Value) → ItemsInOrder items →
    sortedItems items = items
  | [], _ => rfl
  | item :: rest, ordered => by
      rw [sortedItems, item.sorted_of_inOrder ordered.1, sortedItems_of_inOrder rest ordered.2]

theorem sortedFields_of_inOrder : (fields : List ObjectField) → FieldsInOrder fields →
    sortedFields fields = fields
  | [], _ => rfl
  | ⟨_, value, _⟩ :: rest, ordered => by
      rw [sortedFields, value.sorted_of_inOrder ordered.1, sortedFields_of_inOrder rest ordered.2]

end

mutual

/-- However the fields are arranged, sorting comes to the same value. -/
theorem Value.Rearranged.sorted_eq : {value other : Value} → value.Rearranged other →
    other.sorted = value.sorted
  | _, _, .same _ => rfl
  | _, _, .list each loc => by rw [Value.sorted, Value.sorted, each.sorted_eq]
  | _, _, .object each reordered loc => by
      rw [Value.sorted, Value.sorted, ← sortFields_eq_of_reordered reordered.sortedFields,
        each.sorted_eq]

theorem ItemsRearranged.sorted_eq : {items others : List Value} → ItemsRearranged items others →
    sortedItems others = sortedItems items
  | _, _, .nil => rfl
  | _, _, .cons first rest => by
      rw [sortedItems, sortedItems, first.sorted_eq, rest.sorted_eq]

theorem FieldsRearranged.sorted_eq : {fields others : List ObjectField} →
    FieldsRearranged fields others → sortedFields others = sortedFields fields
  | _, _, .nil => rfl
  | _, _, .cons name loc first rest => by
      rw [GraphQL.sortedFields, GraphQL.sortedFields, first.sorted_eq, rest.sorted_eq]

end

theorem sortFields_perm (fields : List ObjectField) :
    ((sortedFields fields).mergeSort ObjectField.inOrder).Perm (fields.map ObjectField.sorted) := by
  rw [sortedFields_eq]
  exact List.mergeSort_perm _ _

/-- Sorting is a canonical form. It comes to the one arrangement of the value in which every object
has its fields in natural order, the same from all arrangements, and sorting again changes nothing.
The fields of an object are those it had, with their values sorted. -/
theorem Value.sorted_canonical (value : Value) :
    value.sorted.sorted = value.sorted ∧
      (∀ other, value.Rearranged other ∧ other.InOrder ↔ other = value.sorted) ∧
      (∀ other, value.Rearranged other → other.sorted = value.sorted) ∧
      ∀ fields loc, value = .object fields loc →
        ∃ ordered, value.sorted = .object ordered loc ∧
          ordered.Perm (fields.map ObjectField.sorted) ∧
          Reordered ObjectField.key ordered (fields.map ObjectField.sorted) ∧
          ordered.Pairwise fun a b => (NaturalOrder.compareNames a.key b.key).isLE = true := by
  constructor
  · exact value.sorted.sorted_of_inOrder value.inOrder_sorted
  constructor
  · intro other
    constructor
    · rintro ⟨rearranged, ordered⟩
      rw [← rearranged.sorted_eq, other.sorted_of_inOrder ordered]
    · rintro rfl
      exact ⟨value.rearranged_sorted, value.inOrder_sorted⟩
  constructor
  · intro other rearranged
    exact rearranged.sorted_eq
  · rintro fields loc rfl
    refine ⟨_, rfl, sortFields_perm fields, ?_, ?_⟩
    · have stable := sortFields_reordered (sortedFields fields)
      rwa [sortedFields_eq] at stable ⊢
    · apply (sortFields_ascending (sortedFields fields)).imp
      exact NaturalOrder.inOrder_iff.mp

end GraphQL
