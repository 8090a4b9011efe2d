import GraphQL.Token
import GraphQL.SyntaxError

/-!
What a production can have against a token, and the words for it.
-/

namespace GraphQL

inductive Complaint where
  | unexpected (found : Lexeme)
  | expected (wanted : TokenKind) (found : Lexeme)
  | expectedKeyword (keyword : String) (found : Lexeme)
  /-- A variable where only constant values may stand. -/
  | constVariable (name : String)
  | reservedFragmentName (found : Lexeme)
  | reservedEnumValue (found : Lexeme)
  | misplacedDescription
  | tooManyTokens (limit : Nat)
  | tooDeep (limit : Nat)
deriving DecidableEq, Repr

namespace Complaint

def descriptionsAddress : String := "https://spec.graphql.org/October2021/#sec-Descriptions"

def enumValuesAddress : String := "https://spec.graphql.org/October2021/#EnumValue"

def kind : Complaint → ErrorKind
  | unexpected found => .unexpectedToken none found.description
  | expected wanted found => .unexpectedToken (some wanted.description) found.description
  | expectedKeyword keyword found =>
      .unexpectedToken (some ("\"" ++ keyword ++ "\"")) found.description
  | constVariable name => .unexpectedToken none ("variable \"$" ++ name ++ "\"")
  | reservedFragmentName found | reservedEnumValue found => .reservedName found.text
  | misplacedDescription => .invalidDescription
  | tooManyTokens limit => .tokenLimitExceeded limit
  | tooDeep limit => .nestingTooDeep limit

def message : Complaint → String
  | unexpected found | reservedFragmentName found => "Unexpected " ++ found.description ++ "."
  | expected wanted found =>
      "Expected " ++ wanted.description ++ ", found " ++ found.description ++ "."
  | expectedKeyword keyword found =>
      "Expected \"" ++ keyword ++ "\", found " ++ found.description ++ "."
  | constVariable name => "Unexpected variable \"$" ++ name ++ "\" in constant value."
  | reservedEnumValue found =>
      found.description ++ " is reserved and cannot be used for an enum value."
  | misplacedDescription =>
      "Unexpected description, descriptions are supported only on type definitions."
  | tooManyTokens limit =>
      "Document contains more than " ++ toString limit ++ " tokens. Parsing aborted."
  | tooDeep limit =>
      "Document nests deeper than " ++ toString limit ++ " levels. Parsing aborted."

def notes : Complaint → List Note
  | reservedFragmentName _ =>
      [.help "`on` introduces a type condition and cannot be used as a fragment name"]
  | reservedEnumValue _ => [.spec enumValuesAddress]
  | misplacedDescription => [.spec descriptionsAddress]
  | _ => []

def error (source : Source) (token : Token) (complaint : Complaint) : SyntaxError :=
  .inSource source token.start complaint.kind complaint.message complaint.notes

end Complaint

end GraphQL
