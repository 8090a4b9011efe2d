import GraphQL.Lexical.Number
import GraphQL.Lexical.Text

/-!
The lexeme that a text begins with. The empty text has the lexeme that ends every source.
-/

namespace GraphQL.Lexical

def isNameContinue (c : Char) : Bool := c.isAlphanum || c == '_'

def comment (text : List Char) : Reading Lexeme :=
  let found := text.takeWhile fun c => !isLineBreak c
  .done found.length (.comment (String.ofList found))

def name (text : List Char) : Reading Lexeme :=
  let found := text.takeWhile isNameContinue
  .done found.length (.name (String.ofList found))

def spread : List Char → Reading Lexeme
  | '.' :: '.' :: _ => .done 3 (.punctuator .ellipsis)
  | '.' :: _ => .fail .incompleteSpread
  | _ => .fail (.unexpectedCharacter '.')

def quoted : List Char → Reading Lexeme
  | '"' :: '"' :: rest =>
      ((blockBody rest).map fun lines =>
        .blockString (String.ofList (['\n'].intercalate (BlockString.dedentLines lines)))).behind 3
  | rest => ((quotedBody 0 rest).map fun value => .string (String.ofList value)).behind 1

def lexeme : List Char → Reading Lexeme
  | [] => .done 0 .eof
  | c :: rest =>
      match Punctuator.ofChar? c with
      | some mark => .done 1 (.punctuator mark)
      | none =>
          if c = '#' then (comment rest).behind 1
          else if c = '.' then spread rest
          else if c = '"' then quoted rest
          else if isNameStart c then name (c :: rest)
          else if c = '-' || c.isDigit then number (c :: rest)
          else if c = '\'' then .fail .singleQuote
          else .fail (.unexpectedCharacter c)

end GraphQL.Lexical
