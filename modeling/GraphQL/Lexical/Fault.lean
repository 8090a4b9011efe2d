import GraphQL.Hex
import GraphQL.SyntaxError

/-!
What can be wrong with a piece of text that should be a lexeme, and the words for it.
-/

namespace GraphQL.Lexical

inductive Fault where
  | unexpectedCharacter (found : Char)
  /-- Two dots where three make a spread. -/
  | incompleteSpread
  | singleQuote
  | digitAfterZero (found : Char)
  | missingDigit (found : Option Char)
  /-- A control character inside a string. -/
  | forbiddenCharacter (found : Char)
  | unknownEscape (found : Char)
  | invalidUnicodeEscape (text : List Char)
  | unterminated
  /-- A string that ends in a backslash together with the text. -/
  | danglingEscape
deriving DecidableEq, Repr

/-- Names a character in a message: printable ASCII in quotes, all else by code point. -/
def describe : Option Char → String
  | none => "<EOF>"
  | some '"' => "'\"'"
  | some c =>
      if ' ' ≤ c ∧ c ≤ '~' then "\"" ++ String.singleton c ++ "\""
      else "U+" ++ String.ofList (Hex.atLeastFour c.toNat)

namespace Fault

def kind : Fault → ErrorKind
  | unexpectedCharacter _ | incompleteSpread | singleQuote => .unexpectedCharacter
  | digitAfterZero _ | missingDigit _ => .invalidNumber
  | forbiddenCharacter _ | unknownEscape _ | invalidUnicodeEscape _ => .invalidString
  | unterminated | danglingEscape => .unterminatedString

def message : Fault → String
  | unexpectedCharacter found => "Unexpected character: " ++ describe (some found) ++ "."
  | incompleteSpread => "Unexpected character: " ++ describe (some '.') ++ "."
  | singleQuote =>
      "Unexpected single quote character ('), did you mean to use a double quote (\")?"
  | digitAfterZero found =>
      "Invalid number, unexpected digit after 0: " ++ describe (some found) ++ "."
  | missingDigit found => "Invalid number, expected digit but got: " ++ describe found ++ "."
  | forbiddenCharacter found =>
      "Invalid character within String: " ++ describe (some found) ++ "."
  | unknownEscape found =>
      "Invalid character escape sequence: \"\\" ++ String.singleton found ++ "\"."
  | invalidUnicodeEscape text =>
      "Invalid Unicode escape sequence: \"" ++ String.ofList text ++ "\"."
  | unterminated | danglingEscape => "Unterminated string."

end Fault

end GraphQL.Lexical
