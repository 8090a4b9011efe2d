/-!
Double-precision numbers, exactly. A finite number is a mantissa below `2 ^ 53` times a power
of two; rounding goes to the nearest one, and from the middle to the even mantissa.
-/

namespace GraphQL

/-- `finite negative mantissa exponent` is `mantissa * 2 ^ (exponent - 1074)` with a sign. The
mantissa has its 53rd bit unless the exponent is zero. -/
inductive Binary64 where
  | nan
  | infinity (negative : Bool)
  | finite (negative : Bool) (mantissa exponent : Nat)
deriving DecidableEq, Repr

namespace Binary64

/-- The quotient rounded to the nearest integer, from the middle to the even one. -/
def roundQuotient (num den : Nat) : Nat :=
  let floor := num / den
  let rest := num % den
  if 2 * rest < den then floor
  else if den < 2 * rest then floor + 1
  else floor + floor % 2

def maxExponent : Nat := 2045

/-- The least number with a 53rd bit; mantissas below it are those of the smallest numbers. -/
def leastNormal : Nat := 0x10000000000000

/-- The number with a mantissa that was rounded. A mantissa that has come to a 54th bit passes it on
to the exponent, and past the largest exponent stands infinity. -/
def ofRounded (negative : Bool) (mantissa exponent : Nat) : Binary64 :=
  let (mantissa, exponent) :=
    if mantissa = 2 * leastNormal then (leastNormal, exponent + 1) else (mantissa, exponent)
  if maxExponent < exponent then infinity negative else finite negative mantissa exponent

/-- The nearest number to a quotient; infinity from half a step past the largest one. -/
def ofQuotient (negative : Bool) (num den : Nat) : Binary64 :=
  let scaled := num * Nat.pow 2 1074
  let exponent := Nat.log2 (scaled / den) - 52
  ofRounded negative (roundQuotient scaled (den * Nat.pow 2 exponent)) exponent

def decimalPlaces (value : Nat) : Nat := (Nat.toDigits 10 value).length

/-- The nearest number to `digits * 10 ^ exponent`. Powers far outside the range are not
computed. -/
def ofDecimal (negative : Bool) (digits : Nat) (exponent : Int) : Binary64 :=
  let magnitude := exponent + decimalPlaces digits
  if digits = 0 ∨ magnitude < -330 then finite negative 0 0
  else if 310 < magnitude then infinity negative
  else if 0 ≤ exponent then ofQuotient negative (digits * Nat.pow 10 exponent.toNat) 1
  else ofQuotient negative digits (Nat.pow 10 (-exponent).toNat)

def ofInt (value : Int) : Binary64 := ofDecimal (value < 0) value.natAbs 0

def signBit (negative : Bool) : Nat := if negative then 0x8000000000000000 else 0

def bits : Binary64 → Nat
  | nan => 0x7FF8000000000000
  | infinity negative => signBit negative + 0x7FF * leastNormal
  | finite negative mantissa exponent =>
      signBit negative +
        if mantissa < leastNormal then mantissa
        else (exponent + 1) * leastNormal + (mantissa - leastNormal)

def isFinite : Binary64 → Bool
  | finite .. => true
  | _ => false

end Binary64

end GraphQL
