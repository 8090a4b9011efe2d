import GraphQL.Number.Binary64

/-!
Numbers as text. An integer numeral is a sign, which may be missing, and digits. A decimal
numeral may have a point among its digits and an exponent behind them, or names infinity or
the missing number in letters of either case.
-/

namespace GraphQL.Numeral

def minInt64 : Int := -0x8000000000000000

def maxInt64 : Int := 0x7FFFFFFFFFFFFFFF

def ofDigits (digits : List Char) : Nat :=
  digits.foldl (fun value c => value * 10 + (c.toNat - 48)) 0

def splitSign : List Char → Bool × List Char
  | '-' :: rest => (true, rest)
  | '+' :: rest => (false, rest)
  | text => (false, text)

def integer? (text : List Char) : Option Int :=
  let (negative, digits) := splitSign text
  if digits.isEmpty || !digits.all Char.isDigit then none
  else
    let value : Int := ofDigits digits
    some (if negative then -value else value)

/-- An integer numeral of a number that takes at most 64 bits. -/
def int64? (text : List Char) : Option Int :=
  (integer? text).filter fun value => minInt64 ≤ value && value ≤ maxInt64

def splitFraction : List Char → List Char × List Char
  | '.' :: rest => (rest.takeWhile Char.isDigit, rest.dropWhile Char.isDigit)
  | text => ([], text)

/-- The exponent that a text is. The empty text is the exponent zero. -/
def exponent? : List Char → Option Int
  | [] => some 0
  | c :: rest => if c = 'e' ∨ c = 'E' then integer? rest else none

/-- The number that a decimal numeral names, rounded to the nearest double. -/
def decimal? (text : List Char) : Option Binary64 :=
  let (negative, unsigned) := splitSign text
  let word := String.ofList (unsigned.map Char.toLower)
  if word = "nan" then some .nan
  else if word = "inf" ∨ word = "infinity" then some (.infinity negative)
  else do
    let whole := unsigned.takeWhile Char.isDigit
    let (fraction, rest) := splitFraction (unsigned.dropWhile Char.isDigit)
    if whole.isEmpty && fraction.isEmpty then none
    else
      let exponent ← exponent? rest
      return .ofDecimal negative (ofDigits (whole ++ fraction)) (exponent - fraction.length)

end GraphQL.Numeral
