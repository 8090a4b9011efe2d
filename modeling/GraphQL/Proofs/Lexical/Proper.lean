import GraphQL.BlockString
import GraphQL.Lexical.Lexeme

/-!
The texts that lexemes can have: names, numbers and the values of block strings. Quoted
strings can have any value. The marks around a text have none, and no tree has comments.
-/

namespace GraphQL

namespace Lexical

def isName : List Char → Bool
  | [] => false
  | c :: rest => isNameStart c && rest.all isNameContinue

def isDigits (text : List Char) : Bool := !text.isEmpty && text.all Char.isDigit

def isWhole (text : List Char) : Bool :=
  text == ['0'] || (isDigits text && text.head? != some '0')

def isFraction : List Char → Bool
  | [] => true
  | '.' :: digits => isDigits digits
  | _ => false

def isExponentMark (c : Char) : Bool := c == 'e' || c == 'E'

def dropExponentSign : List Char → List Char
  | '+' :: rest | '-' :: rest => rest
  | text => text

def isExponent : List Char → Bool
  | [] => true
  | c :: rest => isExponentMark c && isDigits (dropExponentSign rest)

def dropMinus : List Char → List Char
  | '-' :: rest => rest
  | text => text

def isInt (text : List Char) : Bool := isWhole (dropMinus text)

def isFloat (text : List Char) : Bool :=
  let unsigned := dropMinus text
  let behind := unsigned.dropWhile Char.isDigit
  isWhole (unsigned.takeWhile Char.isDigit) && !behind.isEmpty &&
    isFraction (behind.takeWhile fun c => !isExponentMark c) &&
    isExponent (behind.dropWhile fun c => !isExponentMark c)

end Lexical

namespace BlockString

def endsIndented (line : List Char) : Bool := line.getLast?.any isIndent

/-- Lines as dedenting leaves them: none blank at either end, nothing behind the text of any,
and one that starts without indentation if there are several. -/
def areDedented (lines : List (List Char)) : Bool :=
  lines.head?.any (fun line => !isBlank line) && lines.getLast?.any (fun line => !isBlank line) &&
    lines.all (fun line => !endsIndented line) &&
    (lines.length == 1 || lines.any fun line => !isBlank line && !startsIndented line)

/-- The values that a block string can have. -/
def isValue (text : List Char) : Bool :=
  text.isEmpty ||
    ((text.all fun c => c != '\r' && !Lexical.isForbidden c) && areDedented (splitLines text))

end BlockString

/-- Whether a lexeme can be written, with the text that it has. -/
def Lexeme.isProper : Lexeme → Bool
  | name text => Lexical.isName text.toList
  | int text => Lexical.isInt text.toList
  | float text => Lexical.isFloat text.toList
  | blockString value => BlockString.isValue value.toList
  | punctuator _ | string _ => true
  | sof | eof | comment _ => false

end GraphQL
