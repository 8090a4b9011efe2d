import GraphQL.Tree.Value

/-!
References to types. A reference may exclude null once; what it excludes null from is a
named type or a list.
-/

namespace GraphQL

structure NamedType where
  name : Name
  loc : Option Location
deriving DecidableEq, Repr

mutual

inductive TypeRef where
  | nullable (type : NullableType)
  | nonNull (type : NullableType) (loc : Option Location)

inductive NullableType where
  | named (type : NamedType)
  | list (item : TypeRef) (loc : Option Location)

end

mutual

def TypeRef.same : TypeRef → TypeRef → Bool
  | .nullable a, .nullable b => a.same b
  | .nonNull a l, .nonNull b m => a.same b && l = m
  | _, _ => false

def NullableType.same : NullableType → NullableType → Bool
  | .named a, .named b => a = b
  | .list a l, .list b m => a.same b && l = m
  | _, _ => false

end

mutual

theorem TypeRef.same_iff : (a b : TypeRef) → (a.same b = true ↔ a = b)
  | .nullable a, b => by
      cases b with
      | nullable b => simp [TypeRef.same, NullableType.same_iff a b]
      | nonNull b m => simp [TypeRef.same]
  | .nonNull a l, b => by
      cases b with
      | nullable b => simp [TypeRef.same]
      | nonNull b m => simp [TypeRef.same, NullableType.same_iff a b]

theorem NullableType.same_iff : (a b : NullableType) → (a.same b = true ↔ a = b)
  | .named a, b => by cases b <;> simp [NullableType.same]
  | .list a l, b => by
      cases b with
      | named b => simp [NullableType.same]
      | list b m => simp [NullableType.same, TypeRef.same_iff a b]

end

instance : DecidableEq TypeRef := fun a b => decidable_of_iff _ (TypeRef.same_iff a b)

instance : DecidableEq NullableType :=
  fun a b => decidable_of_iff _ (NullableType.same_iff a b)

mutual

def TypeRef.innermostName : TypeRef → Name
  | .nullable type | .nonNull type _ => type.innermostName

def NullableType.innermostName : NullableType → Name
  | .named type => type.name
  | .list item _ => item.innermostName

end

def NullableType.loc : NullableType → Option Location
  | .named type => type.loc
  | .list _ loc => loc

def TypeRef.loc : TypeRef → Option Location
  | .nullable type => type.loc
  | .nonNull _ loc => loc

end GraphQL
