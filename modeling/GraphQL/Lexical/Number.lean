import GraphQL.Lexical.Reading
import GraphQL.Token

/-!
Numbers: an optional sign, a whole part without superfluous zeros, then an optional fraction
and an optional exponent, one of which makes the number a float. No name and no dot may
follow directly, so a number never ends where a reader would read on.
-/

namespace GraphQL.Lexical

def isNameStart (c : Char) : Bool := c.isAlpha || c == '_'

abbrev Part := List Char × List Char

def digits (text : List Char) : Reading Part :=
  match text.takeWhile Char.isDigit with
  | [] => .fail (.missingDigit text.head?)
  | found => .done found.length (found, text.dropWhile Char.isDigit)

def minus : List Char → Reading Part
  | '-' :: rest => .done 1 (['-'], rest)
  | text => .done 0 ([], text)

def wholePart : List Char → Reading Part
  | '0' :: c :: rest =>
      if c.isDigit then ⟨1, .error (.digitAfterZero c)⟩ else .done 1 (['0'], c :: rest)
  | '0' :: [] => .done 1 (['0'], [])
  | text => digits text

def fractionPart : List Char → Reading Part
  | '.' :: rest => ((digits rest).map fun (found, left) => ('.' :: found, left)).behind 1
  | text => .done 0 ([], text)

def exponentSign : List Char → Reading Part
  | '+' :: rest => .done 1 (['+'], rest)
  | text => minus text

def exponentPart : List Char → Reading Part
  | [] => .done 0 ([], [])
  | c :: rest =>
      if c = 'e' ∨ c = 'E' then
        Reading.behind 1 do
          let (sign, unsigned) ← exponentSign rest
          let (found, left) ← digits unsigned
          return (c :: (sign ++ found), left)
      else .done 0 ([], c :: rest)

def continuesNumber (text : List Char) : Bool :=
  text.head?.any fun c => c == '.' || isNameStart c

def number (text : List Char) : Reading Lexeme := do
  let (sign, unsigned) ← minus text
  let (whole, behindWhole) ← wholePart unsigned
  let (fraction, behindFraction) ← fractionPart behindWhole
  let (exponent, rest) ← exponentPart behindFraction
  if continuesNumber rest then .fail (.missingDigit rest.head?)
  else
    let digits := String.ofList (sign ++ whole ++ fraction ++ exponent)
    return if fraction.isEmpty && exponent.isEmpty then .int digits else .float digits

end GraphQL.Lexical
