/-!
Hexadecimal digits, and the four-digit spelling that escapes and code point names use.
-/

namespace GraphQL.Hex

def value? (c : Char) : Option Nat :=
  if c.isDigit then some (c.toNat - 48)
  else if 'a' ≤ c ∧ c ≤ 'f' then some (c.toNat - 87)
  else if 'A' ≤ c ∧ c ≤ 'F' then some (c.toNat - 55)
  else none

def digit (value : Nat) : Char :=
  if value < 10 then Char.ofNat (48 + value) else Char.ofNat (55 + value)

def four (value : Nat) : List Char :=
  [digit (value / 4096 % 16), digit (value / 256 % 16), digit (value / 16 % 16),
    digit (value % 16)]

/-- All digits of a number, at least four; enough for every code point. -/
def atLeastFour (value : Nat) : List Char :=
  if value < 0x10000 then four value
  else if value < 0x100000 then digit (value / 0x10000) :: four value
  else digit (value / 0x100000) :: digit (value / 0x10000 % 16) :: four value

def ofFour? (a b c d : Char) : Option Nat := do
  let a ← value? a
  let b ← value? b
  let c ← value? c
  let d ← value? d
  return a * 4096 + b * 256 + c * 16 + d

end GraphQL.Hex
