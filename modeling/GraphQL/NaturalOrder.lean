/-!
The order in which people expect names: digits that stand together count as one number, and
other characters go by their code points. Equal numbers that are written with different
counts of leading zeros go by their lengths. Names are compared by their bytes in UTF-8: no
byte of a longer character is a digit, and bytes are in the order of the code points.
-/

namespace GraphQL.NaturalOrder

def isDigit (byte : UInt8) : Bool := 0x30 ≤ byte && byte ≤ 0x39

def significant (run : List UInt8) : List UInt8 := run.dropWhile fun byte => byte == 0x30

/-- Compares two runs of digits: the longer number is larger, numbers of one length go by
their digits, and equal numbers by the lengths of their runs. -/
def compareRuns (a b : List UInt8) : Ordering :=
  let x := significant a
  let y := significant b
  (compare x.length y.length).then ((compare x y).then (compare a.length b.length))

/-- Walks through two names side by side. Where only one of them is left, the other one comes
first. -/
def walk : List UInt8 → List UInt8 → Ordering
  | c :: cs, d :: ds =>
      if isDigit c && isDigit d then
        (compareRuns (c :: cs.takeWhile isDigit) (d :: ds.takeWhile isDigit)).then
          (walk (cs.dropWhile isDigit) (ds.dropWhile isDigit))
      else (compare c d).then (walk cs ds)
  | left, right => compare left.length right.length
termination_by left => left.length
decreasing_by
  · exact Nat.lt_succ_of_le (List.dropWhile_sublist isDigit).length_le
  · exact Nat.lt_succ_self cs.length

def bytes (name : String) : List UInt8 := name.toUTF8.data.toList

def compareNames (a b : String) : Ordering := walk (bytes a) (bytes b)

def inOrder (a b : String) : Bool := compareNames a b != .gt

def sortNames (names : List String) : List String := names.mergeSort inOrder

end GraphQL.NaturalOrder
