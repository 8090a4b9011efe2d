import GraphQL.Lexical.Scan

/-!
All that reading a source can give, in order: tokens, and the errors between them, since
reading goes on behind an error. It ends with the token that ends the source, or with an
error that no further read gets past; either is met again and again.
-/

namespace GraphQL

structure TokenStream where
  items : List (Except SyntaxError Token)
  ending : Except SyntaxError Token

namespace TokenStream

def next (stream : TokenStream) : Except SyntaxError Token × TokenStream :=
  match stream.items with
  | [] => (stream.ending, stream)
  | item :: rest => (item, { stream with items := rest })

def cons (item : Except SyntaxError Token) (stream : TokenStream) : TokenStream :=
  { stream with items := item :: stream.items }

/-- What is read from a scan on, behind the token at place `prev`, in at most `reads` reads
before the ending. -/
def ofScan (source : Source) (prev : Nat) (scan : Scan) : (reads : Nat) → TokenStream
  | 0 => ⟨[], (scan.read source prev).1⟩
  | reads + 1 =>
      match scan.read source prev with
      | (.ok token, rest) =>
          if token.lexeme = .eof then ⟨[], .ok token⟩
          else (ofScan source (prev + 1) rest reads).cons (.ok token)
      | (.error error, rest) =>
          if rest.rest.length < scan.skipIgnored.rest.length then
            (ofScan source prev rest reads).cons (.error error)
          else ⟨[], .error error⟩

def ofSource (source : Source) : TokenStream :=
  ofScan source 0 (.ofSource source) source.chars.length

def isSignificant : Except SyntaxError Token → Bool
  | .ok token => token.isSignificant
  | .error _ => true

def significant (stream : TokenStream) : TokenStream :=
  { stream with items := stream.items.filter isSignificant }

end TokenStream

end GraphQL
