import GraphQL.Tree.Location

/-!
Names, values, and the arguments and directives that carry values. Numbers keep the text
they were written with.
-/

namespace GraphQL

structure Name where
  value : String
  loc : Option Location
deriving DecidableEq, Repr

structure StringValue where
  value : String
  block : Bool
  loc : Option Location
deriving DecidableEq, Repr

structure Variable where
  name : Name
  loc : Option Location
deriving DecidableEq, Repr

mutual

inductive Value where
  | var (reference : Variable)
  | int (text : String) (loc : Option Location)
  | float (text : String) (loc : Option Location)
  | string (literal : StringValue)
  | boolean (value : Bool) (loc : Option Location)
  | null (loc : Option Location)
  | enum (name : String) (loc : Option Location)
  | list (items : List Value) (loc : Option Location)
  | object (fields : List ObjectField) (loc : Option Location)

structure ObjectField where
  name : Name
  value : Value
  loc : Option Location

end

namespace Value

def loc : Value → Option Location
  | var reference => reference.loc
  | string literal => literal.loc
  | int _ loc | float _ loc | boolean _ loc | null loc | enum _ loc | list _ loc
  | object _ loc => loc

mutual

/-- A constant value refers to no variable at any depth. -/
def isConst : Value → Bool
  | var _ => false
  | list items _ => allConst items
  | object fields _ => allFieldsConst fields
  | _ => true

def allConst : List Value → Bool
  | [] => true
  | item :: rest => item.isConst && allConst rest

def allFieldsConst : List ObjectField → Bool
  | [] => true
  | ⟨_, value, _⟩ :: rest => value.isConst && allFieldsConst rest

end

mutual

def same : Value → Value → Bool
  | var a, var b => a = b
  | int a l, int b m | float a l, float b m | enum a l, enum b m => a = b && l = m
  | string a, string b => a = b
  | boolean a l, boolean b m => a = b && l = m
  | null l, null m => l = m
  | list a l, list b m => sameItems a b && l = m
  | object a l, object b m => sameFields a b && l = m
  | _, _ => false

def sameItems : List Value → List Value → Bool
  | [], [] => true
  | a :: as, b :: bs => a.same b && sameItems as bs
  | _, _ => false

def sameFields : List ObjectField → List ObjectField → Bool
  | [], [] => true
  | ⟨n, a, l⟩ :: as, ⟨m, b, k⟩ :: bs => n = m && a.same b && l = k && sameFields as bs
  | _, _ => false

end

mutual

theorem same_iff : (a b : Value) → (a.same b = true ↔ a = b)
  | var a, b => by cases b <;> simp [same]
  | int a l, b => by cases b <;> simp [same]
  | float a l, b => by cases b <;> simp [same]
  | string a, b => by cases b <;> simp [same]
  | boolean a l, b => by cases b <;> simp [same]
  | null l, b => by cases b <;> simp [same]
  | enum a l, b => by cases b <;> simp [same]
  | list items l, b => by
      cases b with
      | list others m => simp [same, sameItems_iff items others]
      | _ => simp [same]
  | object fields l, b => by
      cases b with
      | object others m => simp [same, sameFields_iff fields others]
      | _ => simp [same]

theorem sameItems_iff : (a b : List Value) → (sameItems a b = true ↔ a = b)
  | [], b => by cases b <;> simp [sameItems]
  | item :: rest, b => by
      cases b with
      | nil => simp [sameItems]
      | cons other others => simp [sameItems, same_iff item other, sameItems_iff rest others]

theorem sameFields_iff : (a b : List ObjectField) → (sameFields a b = true ↔ a = b)
  | [], b => by cases b <;> simp [sameFields]
  | ⟨name, value, l⟩ :: rest, b => by
      cases b with
      | nil => simp [sameFields]
      | cons other others =>
          obtain ⟨otherName, otherValue, k⟩ := other
          simp [sameFields, same_iff value otherValue, sameFields_iff rest others, and_assoc]

end

instance : DecidableEq Value := fun a b => decidable_of_iff _ (same_iff a b)

end Value

instance : DecidableEq ObjectField := fun a b =>
  decidable_of_iff (a.name = b.name ∧ a.value = b.value ∧ a.loc = b.loc) (by
    cases a; cases b; simp)

structure Argument where
  name : Name
  value : Value
  loc : Option Location
deriving DecidableEq

structure Directive where
  name : Name
  arguments : List Argument
  loc : Option Location
deriving DecidableEq

end GraphQL
