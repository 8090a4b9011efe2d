import GraphQL.BlockString
import GraphQL.Lexical.Reading
import GraphQL.Source

/-!
Strings, both forms, read from behind their opening quotes. A quoted string ends on its own
line and knows escapes; a block string spans lines and knows one escape, that of its own
delimiter.
-/

namespace GraphQL.Lexical

/-- Control characters that no string may hold as they are. -/
def isForbidden (c : Char) : Bool :=
  c.toNat < 0x20 && c != '\t' && !isLineBreak c

/-- The character of a code point; surrogates and numbers past the last code point are none. -/
def scalar? (code : Nat) : Option Char :=
  if code.isValidChar then some (Char.ofNat code) else none

def isLeadingSurrogate (code : Nat) : Bool := 0xD800 ≤ code && code ≤ 0xDBFF

def isTrailingSurrogate (code : Nat) : Bool := 0xDC00 ≤ code && code ≤ 0xDFFF

/-- A decoded escape: its character, and how many characters behind the backslash spell it. -/
abbrev Escape := Char × Nat

/-- The text of a bad escape with four digits: six bytes from the backslash. -/
def fourDigitFault (text : List Char) : Fault :=
  .invalidUnicodeEscape (coverBytes 6 ('\\' :: text))

def fourDigits? : List Char → Option Nat
  | a :: b :: c :: d :: _ => Hex.ofFour? a b c d
  | _ => none

/-- The second half of a surrogate pair, which begins with a backslash of its own. -/
def trailingHalf? : List Char → Option Nat
  | '\\' :: 'u' :: rest => (fourDigits? rest).filter isTrailingSurrogate
  | _ => none

/-- The character that the digits of a four-digit escape name, alone or with the escape
behind it. -/
def fourDigitEscape? (digits : List Char) : Option Escape := do
  let code ← fourDigits? digits
  match scalar? code with
  | some c => return (c, 5)
  | none =>
      if isLeadingSurrogate code then
        let low ← trailingHalf? (digits.drop 4)
        return (← scalar? (0x10000 + (code - 0xD800) * 0x400 + (low - 0xDC00)), 11)
      else none

/-- The largest value that a braced escape may reach while it is read. -/
def maxBracedCode : Nat := 0x7FFFFFFF

/-- Reads on in a braced escape of which `size` characters, from the backslash on, and the
value `code` are known, looking at `budget` more. An error tells how many characters were
looked at. -/
def bracedEscape (code size : Nat) : Nat → List Char → Except Nat Escape
  | 0, _ => .error size
  | _ + 1, [] => .error size
  | budget + 1, c :: rest =>
      if c = '}' then
        if size + 1 < 5 then .error (size + 1)
        else
          match scalar? code with
          | some found => .ok (found, size)
          | none => .error (size + 1)
      else
        match Hex.value? c with
        | none => .error (size + 1)
        | some digit =>
            if code * 16 + digit > maxBracedCode then .error (size + 1)
            else bracedEscape (code * 16 + digit) (size + 1) budget rest

def escape : List Char → Except Fault Escape
  | [] => .error .danglingEscape
  | '"' :: _ => .ok ('"', 1)
  | '\\' :: _ => .ok ('\\', 1)
  | '/' :: _ => .ok ('/', 1)
  | 'b' :: _ => .ok ('\x08', 1)
  | 'f' :: _ => .ok ('\x0c', 1)
  | 'n' :: _ => .ok ('\n', 1)
  | 'r' :: _ => .ok ('\r', 1)
  | 't' :: _ => .ok ('\t', 1)
  | 'u' :: '{' :: rest =>
      match bracedEscape 0 3 9 rest with
      | .ok found => .ok found
      | .error size => .error (.invalidUnicodeEscape ('\\' :: ('u' :: '{' :: rest).take (size - 1)))
  | 'u' :: rest =>
      match fourDigitEscape? rest with
      | some found => .ok found
      | none => .error (fourDigitFault ('u' :: rest))
  | other :: _ => .error (.unknownEscape other)

/-- The value of a quoted string from behind its opening quote. The next `skip` characters
belong to an escape that is already decoded. -/
def quotedBody : (skip : Nat) → List Char → Reading (List Char)
  | _, [] => .fail .unterminated
  | skip + 1, _ :: rest => (quotedBody skip rest).behind 1
  | 0, c :: rest =>
      if c = '"' then .done 1 []
      else if isLineBreak c then .fail .unterminated
      else if c = '\\' then
        match escape rest with
        | .ok (found, size) => ((quotedBody size rest).map (found :: ·)).behind 1
        | .error fault => .fail fault
      else if isForbidden c then .fail (.forbiddenCharacter c)
      else ((quotedBody 0 rest).map (c :: ·)).behind 1

def prepend (text : List Char) : List (List Char) → List (List Char)
  | [] => [text]
  | line :: rest => (text ++ line) :: rest

/-- The lines of a block string from behind its opening quotes, as they are written. -/
def blockBody : List Char → Reading (List (List Char))
  | [] => .fail .unterminated
  | '"' :: '"' :: '"' :: _ => .done 3 [[]]
  | '\\' :: '"' :: '"' :: '"' :: rest =>
      ((blockBody rest).map (prepend BlockString.delimiter)).behind 4
  | '\r' :: '\n' :: rest => ((blockBody rest).map ([] :: ·)).behind 2
  | c :: rest =>
      if isLineBreak c then ((blockBody rest).map ([] :: ·)).behind 1
      else if isForbidden c then .fail (.forbiddenCharacter c)
      else ((blockBody rest).map (prepend [c])).behind 1

end GraphQL.Lexical
