import GraphQL.Number.Binary64

/-!
The shortest decimal text of a double: the fewest digits that round back to it, and of
several such numbers the nearest. Numbers of moderate size are written positionally, always
with a fraction, the others with an exponent.
-/

namespace GraphQL.Binary64

def quotient (mantissa exponent : Nat) : Nat × Nat :=
  if 1074 ≤ exponent then (mantissa * Nat.pow 2 (exponent - 1074), 1)
  else (mantissa, Nat.pow 2 (1074 - exponent))

/-- How many digits behind the point come before the first that is not zero, for a quotient
below one; at most `budget`. -/
def leadingZeros (num den : Nat) : (budget : Nat) → Nat
  | 0 => 0
  | budget + 1 => if den ≤ num * 10 then 0 else leadingZeros (num * 10) den budget + 1

def firstPower (num den : Nat) : Int :=
  if den ≤ num then (decimalPlaces (num / den) : Int) - 1
  else -(leadingZeros num den 400 + 1 : Int)

def scale (num den : Nat) (power : Int) : Nat × Nat :=
  if 0 ≤ power then (num * Nat.pow 10 power.toNat, den)
  else (num, den * Nat.pow 10 (-power).toNat)

/-- A decimal with `places` digits that rounds to the number, the nearer if there are two. -/
def decimalOf? (mantissa exponent places : Nat) : Option (Nat × Int) :=
  let (num, den) := quotient mantissa exponent
  let power := firstPower num den - places + 1
  let (num, den) := scale num den (-power)
  let below := num / den
  let near := roundQuotient num den
  let far := if near = below then below + 1 else below
  [near, far].find? (fun digits => ofDecimal false digits power = finite false mantissa exponent)
    |>.map (·, power)

/-- The shortest decimal that rounds to a finite number other than zero. Seventeen digits
always suffice. -/
def shortest (mantissa exponent : Nat) : Nat × Int :=
  ((List.range 17).findSome? fun places => decimalOf? mantissa exponent (places + 1)).getD (0, 0)

def trimZeros (digits : Nat) (power : Int) : (budget : Nat) → Nat × Int
  | 0 => (digits, power)
  | budget + 1 =>
      if digits % 10 = 0 then trimZeros (digits / 10) (power + 1) budget else (digits, power)

/-- Writes `digits * 10 ^ power`: positionally from five zeros behind the point up to sixteen
digits in front of it. -/
def writeDecimal (digits : Nat) (power : Int) : List Char :=
  let text := Nat.toDigits 10 digits
  let point : Int := text.length + power
  if 0 ≤ power ∧ point ≤ 16 then text ++ List.replicate power.toNat '0' ++ ['.', '0']
  else if 0 < point ∧ point ≤ 16 then
    text.take point.toNat ++ '.' :: text.drop point.toNat
  else if -5 < point ∧ point ≤ 0 then
    '0' :: '.' :: (List.replicate (-point).toNat '0' ++ text)
  else
    let exponent := 'e' :: (toString (point - 1)).toList
    match text with
    | [] => exponent
    | [first] => first :: exponent
    | first :: rest => first :: '.' :: (rest ++ exponent)

/-- The text of a number. Only finite numbers have one; the others read `null`. -/
def write : Binary64 → List Char
  | nan | infinity _ => ['n', 'u', 'l', 'l']
  | finite negative mantissa exponent =>
      let sign := if negative then ['-'] else []
      if mantissa = 0 then sign ++ ['0', '.', '0']
      else
        let (digits, power) := shortest mantissa exponent
        let (digits, power) := trimZeros digits power 17
        sign ++ writeDecimal digits power

end GraphQL.Binary64
