import GraphQL.NaturalOrder
import GraphQL.Tree.Value

/-!
Values with the fields of every object in natural order. What a value means does not depend
on the order of its fields.
-/

namespace GraphQL

def ObjectField.inOrder (a b : ObjectField) : Bool :=
  NaturalOrder.inOrder a.name.value b.name.value

mutual

/-- The value with all fields in order. Fields of equal names keep their places. -/
def Value.sorted : Value → Value
  | .list items loc => .list (sortedItems items) loc
  | .object fields loc => .object ((sortedFields fields).mergeSort ObjectField.inOrder) loc
  | .var reference => .var reference
  | .int text loc => .int text loc
  | .float text loc => .float text loc
  | .string literal => .string literal
  | .boolean value loc => .boolean value loc
  | .null loc => .null loc
  | .enum name loc => .enum name loc

def sortedItems : List Value → List Value
  | [] => []
  | item :: rest => item.sorted :: sortedItems rest

def sortedFields : List ObjectField → List ObjectField
  | [] => []
  | ⟨name, value, loc⟩ :: rest => ⟨name, value.sorted, loc⟩ :: sortedFields rest

end

end GraphQL
