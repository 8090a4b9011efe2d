import GraphQL.Proofs.Cursor
import GraphQL.Proofs.Lexical.Escape

/-!
Escapes as they are read from bytes into words of 32 bits. A slice between two byte offsets has no
result where an end falls inside a character, and a sum or a difference has none where it would
wrap. A shift either loses the bits that it pushes out of a word, or has no result then. With the
first kind of shift there is a result for every text, and it is the one of `escape`, whose numbers
have no bound. With the second kind there is none for one sort of text: the ninth digit of a braced
escape may push out the first. Such an escape is refused in either case.
-/

namespace GraphQL

namespace Lexical.Bytewise

def bytes (text : List Char) : List UInt8 := text.flatMap String.utf8EncodeChar

/-- The digit that a byte shows when it is taken for a character. -/
def digit? (byte : UInt8) : Option Nat := Hex.value? (Char.ofNat byte.toNat)

/-- A word shifted to the left by some places. -/
abbrev Shift := UInt32 → Nat → Option UInt32

def lossy : Shift := fun word places => some (word <<< UInt32.ofNat places)

def lossless : Shift := fun word places =>
  if word.toNat <<< places < UInt32.size then some (word <<< UInt32.ofNat places) else none

def shiftIn? (shift : Shift) (code : UInt32) (digit : Nat) : Option UInt32 :=
  (shift code 4).map (· ||| UInt32.ofNat digit)

def add? (a b : UInt32) : Option UInt32 :=
  if a.toNat + b.toNat < UInt32.size then some (a + b) else none

def sub? (a b : UInt32) : Option UInt32 := if b ≤ a then some (a - b) else none

def combine? (shift : Shift) (leading trailing : UInt32) : Option UInt32 := do
  let high ← sub? leading 0xD800
  let low ← sub? trailing 0xDC00
  let base ← add? 0x10000 (← shift high 10)
  add? base low

/-- The number that four bytes at an offset write. There is none if they are no slice of the text or
not all of them are digits. -/
def fourAt? (offset : Nat) (text : List Char) : Option UInt32 := do
  let (_, behind) ← splitBytes? offset text
  let (word, _) ← splitBytes? 4 behind
  (bytes word).foldlM (fun code byte => (digit? byte).bind (shiftIn? lossless code)) 0

/-- Reads on in a braced escape, as `bracedEscape` does. Sizes count the bytes from the
backslash. -/
def braced (shift : Shift) (code : UInt32) (size : Nat) :
    Nat → List UInt8 → Option (Except Nat Escape)
  | 0, _ => some (.error size)
  | _ + 1, [] => some (.error size)
  | budget + 1, byte :: rest =>
      if byte = 0x7D then
        if size + 1 < 5 then some (.error (size + 1))
        else
          match scalar? code.toNat with
          | some found => some (.ok (found, size + 1))
          | none => some (.error (size + 1))
      else
        match digit? byte with
        | none => some (.error (size + 1))
        | some digit =>
            (shiftIn? shift code digit).bind fun next =>
              if 0x7FFFFFFF < next then some (.error (size + 1))
              else braced shift next (size + 1) budget rest

def secondHalf? (text : List Char) : Option (Option UInt32) := do
  let (_, behind) ← splitBytes? 6 text
  if ['\\', 'u'].isPrefixOf behind then
    return (fourAt? 8 text).filter fun code => isTrailingSurrogate code.toNat
  else return none

def pair? (shift : Shift) (leading : UInt32) (text : List Char) : Option (Option Char) := do
  match ← secondHalf? text with
  | some trailing => return scalar? (← combine? shift leading trailing).toNat
  | none => return none

/-- The text of a bad escape: at least `size` bytes, up to the next boundary. -/
def refused (size : Nat) (text : List Char) : Except Fault Escape :=
  .error (.invalidUnicodeEscape (coverBytes size text))

def decodeFour (shift : Shift) (text : List Char) : Option (Except Fault Escape) :=
  match fourAt? 2 text with
  | none => some (refused 6 text)
  | some code =>
      match scalar? code.toNat with
      | some c => some (.ok (c, 6))
      | none =>
          if isLeadingSurrogate code.toNat then
            (pair? shift code text).map fun
              | some c => .ok (c, 12)
              | none => refused 6 text
          else some (refused 6 text)

def decodeBraced (shift : Shift) (text : List Char) : Option (Except Fault Escape) :=
  (braced shift 0 3 9 ((bytes text).drop 3)).map fun
    | .ok found => .ok found
    | .error size => refused size text

def decode (shift : Shift) (text : List Char) : Option (Except Fault Escape) :=
  match text.drop 1 with
  | [] => some (.error .danglingEscape)
  | c :: _ =>
      if c = 'u' then do
        let (_, behind) ← splitBytes? 2 text
        if behind.head? = some '{' then decodeBraced shift text else decodeFour shift text
      else
        match shortEscapes.lookup c with
        | some found => some (.ok (found, 2))
        | none => some (.error (.unknownEscape c))

/-- What `escape` gives, with the text behind the escape in place of its length. -/
def decoded (text : List Char) : Except Fault (Char × List Char) :=
  (escape text).map fun found => (found.1, text.drop found.2)

def read (shift : Shift) (text : List Char) : Option (Except Fault (Char × List Char)) := do
  match ← decode shift text with
  | .error fault => return .error fault
  | .ok (c, size) =>
      let (_, behind) ← splitBytes? size text
      return .ok (c, behind)

/-! Characters of one byte. -/

def IsAscii (text : List Char) : Prop := ∀ c ∈ text, c.toNat < 128

theorem isAscii_nil : IsAscii [] := by simp [IsAscii]

theorem isAscii_cons {c : Char} {text : List Char} :
    IsAscii (c :: text) ↔ c.toNat < 128 ∧ IsAscii text := List.forall_mem_cons

theorem isAscii_append {left right : List Char} :
    IsAscii (left ++ right) ↔ IsAscii left ∧ IsAscii right := List.forall_mem_append

theorem isAscii_mark : IsAscii ['\\', 'u'] := by
  simp only [isAscii_cons, isAscii_nil]
  decide

theorem utf8Size_of_ascii {c : Char} (ascii : c.toNat < 128) : c.utf8Size = 1 :=
  Char.utf8Size_eq_one_iff.mpr (UInt32.le_iff_toNat_le.mpr (Nat.le_of_lt_succ ascii))

theorem IsAscii.byteLength_eq {text : List Char} (ascii : IsAscii text) :
    byteLength text = text.length := by
  induction text with
  | nil => rfl
  | cons c rest ih =>
      obtain ⟨first, others⟩ := isAscii_cons.mp ascii
      rw [byteLength, utf8Size_of_ascii first, ih others, List.length_cons, Nat.add_comm]

theorem IsAscii.split {text : List Char} (ascii : IsAscii text) (rest : List Char) :
    splitBytes? text.length (text ++ rest) = some (text, rest) := by
  rw [← ascii.byteLength_eq]
  exact splitBytes_append text rest

theorem toNat_of_value {c : Char} {value : Nat} (known : Hex.value? c = some value) :
    c.toNat < 128 := Nat.lt_trans (Hex.toNat_lt_of_value known) (by decide)

theorem isAscii_of_numeral {digits : List Char} {number : Nat}
    (numeral : Hex.Numeral digits number) : IsAscii digits := by
  intro c member
  obtain ⟨value, known⟩ := numeral.value_of_mem member
  exact toNat_of_value known

theorem isAscii_of_escapes {word : List Char} {c : Char} (escapes : Escapes word c) :
    IsAscii word := by
  have marks : ∀ d ∈ escapeMarks, d.toNat < 128 := by simp [escapeMarks]
  intro d member
  rcases escapes.mark_or_digit member with mark | ⟨value, known⟩
  · exact marks d mark
  · exact toNat_of_value known

/-! Bytes against characters. -/

theorem bytes_of_ascii {c : Char} (ascii : c.toNat < 128) (rest : List Char) :
    bytes (c :: rest) = UInt8.ofNat c.toNat :: bytes rest := by
  have single := String.utf8EncodeChar_eq_singleton (utf8Size_of_ascii ascii)
  rw [bytes, List.flatMap_cons, single]
  rfl

theorem bytes_of_large {c : Char} (large : 128 ≤ c.toNat) (rest : List Char) :
    ∃ byte more, bytes (c :: rest) = byte :: more ∧ 128 ≤ byte.toNat := by
  have code : c.toNat = c.val.toNat := rfl
  simp only [bytes, List.flatMap_cons, String.utf8EncodeChar]
  rw [if_neg (by omega)]
  repeat' split
  all_goals
    refine ⟨_, _, rfl, ?_⟩
    simp only [UInt8.toNat_ofNat']
    omega

theorem ofNat_toNat {c : Char} (ascii : c.toNat < 128) :
    Char.ofNat (UInt8.ofNat c.toNat).toNat = c := by
  have same : (UInt8.ofNat c.toNat).toNat = c.toNat := by
    rw [UInt8.toNat_ofNat']
    exact Nat.mod_eq_of_lt (by omega)
  rw [same, Char.ofNat_toNat]

theorem digit_of_ascii {c : Char} (ascii : c.toNat < 128) :
    digit? (UInt8.ofNat c.toNat) = Hex.value? c := by rw [digit?, ofNat_toNat ascii]

theorem digit_of_large {byte : UInt8} (large : 128 ≤ byte.toNat) : digit? byte = none := by
  cases known : digit? byte with
  | none => rfl
  | some value =>
      have small := toNat_of_value known
      have valid : byte.toNat.isValidChar := .inl (Nat.lt_trans byte.toNat_lt (by decide))
      have same : (Char.ofNat byte.toNat).toNat = byte.toNat :=
        toNat_of_scalar (by simp [scalar?, valid])
      omega

theorem value_of_large {c : Char} (large : 128 ≤ c.toNat) : Hex.value? c = none := by
  cases known : Hex.value? c with
  | none => rfl
  | some value => exact absurd (toNat_of_value known) (Nat.not_lt.mpr large)

/-! Words against numbers. -/

/-- Where no bit is lost, there is a result. -/
def Shift.Keeps (shift : Shift) : Prop :=
  ∀ word places, word.toNat <<< places < UInt32.size →
    shift word places = some (word <<< UInt32.ofNat places)

theorem lossy_keeps : lossy.Keeps := fun _ _ _ => rfl

theorem lossless_keeps : lossless.Keeps := fun _ _ fits => if_pos fits

theorem toNat_shiftLeft (word : UInt32) {places : Nat} (few : places < 32)
    (fits : word.toNat <<< places < UInt32.size) :
    (word <<< UInt32.ofNat places).toNat = word.toNat <<< places := by
  have same : (UInt32.ofNat places).toNat = places :=
    UInt32.toNat_ofNat_of_lt' (by rw [UInt32.size]; omega)
  rw [UInt32.toNat_shiftLeft, same, Nat.mod_eq_of_lt few]
  exact Nat.mod_eq_of_lt fits

theorem Shift.Keeps.shiftIn {shift : Shift} (keeps : shift.Keeps) {number digit : Nat}
    (small : number < 0x10000000) (isDigit : digit < 16) :
    shiftIn? shift (UInt32.ofNat number) digit = some (UInt32.ofNat (number * 16 + digit)) := by
  have word : (UInt32.ofNat number).toNat = number :=
    UInt32.toNat_ofNat_of_lt' (by rw [UInt32.size]; omega)
  have single : (UInt32.ofNat digit).toNat = digit :=
    UInt32.toNat_ofNat_of_lt' (by rw [UInt32.size]; omega)
  have sum : (UInt32.ofNat (number * 16 + digit)).toNat = number * 16 + digit :=
    UInt32.toNat_ofNat_of_lt' (by rw [UInt32.size]; omega)
  have fits : (UInt32.ofNat number).toNat <<< 4 < UInt32.size := by
    rw [word, Nat.shiftLeft_eq, UInt32.size]
    omega
  rw [shiftIn?, keeps _ 4 fits, Option.map_some, Option.some.injEq, ← UInt32.toNat_inj, sum,
    UInt32.toNat_or, toNat_shiftLeft _ (by decide) fits, word, single,
    ← Nat.shiftLeft_add_eq_or_of_lt isDigit, Nat.shiftLeft_eq]

theorem shiftIn_lossless {code : UInt32} (large : 0x10000000 ≤ code.toNat) (digit : Nat) :
    shiftIn? lossless code digit = none := by
  have beyond : ¬code.toNat <<< 4 < UInt32.size := by
    rw [Nat.shiftLeft_eq, UInt32.size]
    omega
  rw [shiftIn?, lossless, if_neg beyond, Option.map_none]

theorem toNat_of_small {number : Nat} (small : number ≤ maxBracedCode) :
    (UInt32.ofNat number).toNat = number := by
  have fits : maxBracedCode < UInt32.size := by decide
  exact UInt32.toNat_ofNat_of_lt' (Nat.lt_of_le_of_lt small fits)

theorem add_eq (a b : UInt32) (fits : a.toNat + b.toNat < UInt32.size) :
    ∃ sum, add? a b = some sum ∧ sum.toNat = a.toNat + b.toNat := by
  refine ⟨a + b, if_pos fits, ?_⟩
  rw [UInt32.toNat_add]
  exact Nat.mod_eq_of_lt fits

theorem sub_eq (a b : UInt32) (ordered : b.toNat ≤ a.toNat) :
    ∃ difference, sub? a b = some difference ∧ difference.toNat = a.toNat - b.toNat := by
  have ordered := UInt32.le_iff_toNat_le.mpr ordered
  exact ⟨a - b, if_pos ordered, UInt32.toNat_sub_of_le a b ordered⟩

theorem Shift.Keeps.combine {shift : Shift} (keeps : shift.Keeps) (leading trailing : UInt32)
    (leads : 0xD800 ≤ leading.toNat ∧ leading.toNat ≤ 0xDBFF)
    (trails : 0xDC00 ≤ trailing.toNat ∧ trailing.toNat ≤ 0xDFFF) :
    ∃ code, combine? shift leading trailing = some code ∧
      code.toNat = 0x10000 + (leading.toNat - 0xD800) * 0x400 + (trailing.toNat - 0xDC00) := by
  obtain ⟨high, isHigh, highValue⟩ := sub_eq leading 0xD800 leads.1
  obtain ⟨low, isLow, lowValue⟩ := sub_eq trailing 0xDC00 trails.1
  have lead : (0xD800 : UInt32).toNat = 0xD800 := rfl
  have trail : (0xDC00 : UInt32).toNat = 0xDC00 := rfl
  have first : (0x10000 : UInt32).toNat = 0x10000 := rfl
  have size : UInt32.size = 4294967296 := rfl
  have fits : high.toNat <<< 10 < UInt32.size := by
    rw [Nat.shiftLeft_eq]
    omega
  have shifted := toNat_shiftLeft high (by decide) fits
  rw [Nat.shiftLeft_eq] at shifted
  obtain ⟨base, isBase, baseValue⟩ := add_eq 0x10000 (high <<< UInt32.ofNat 10) (by omega)
  obtain ⟨code, isCode, codeValue⟩ := add_eq base low (by omega)
  refine ⟨code, ?_, by omega⟩
  simp only [combine?, isHigh, isLow, keeps high 10 fits, isBase, isCode, Option.bind_eq_bind,
    Option.bind_some]

/-! Four digits, and pairs of four. -/

def digits? : (count : Nat) → UInt32 → List Char → Option UInt32
  | 0, code, _ => some code
  | _ + 1, _, [] => none
  | count + 1, code, c :: rest =>
      (Hex.value? c).bind fun digit =>
        (shiftIn? lossless code digit).bind fun next => digits? count next rest

/-- A slice of some bytes that are all digits has as many characters. -/
theorem foldlM_bytes (count : Nat) (code : UInt32) (text : List Char) :
    ((splitBytes? count text).bind fun cut =>
      (bytes cut.1).foldlM (fun code byte => (digit? byte).bind (shiftIn? lossless code)) code) =
      digits? count code text := by
  induction count generalizing code text with
  | zero =>
      rw [splitBytes?]
      rfl
  | succ count ih =>
      cases text with
      | nil => rfl
      | cons c rest =>
          rw [splitBytes?, digits?]
          by_cases ascii : c.toNat < 128
          · rw [utf8Size_of_ascii ascii, if_pos (Nat.le_add_left 1 count), Nat.add_sub_cancel,
              Option.bind_map]
            simp only [Function.comp_def, bytes_of_ascii ascii, List.foldlM_cons,
              digit_of_ascii ascii]
            cases Hex.value? c with
            | none => simp
            | some digit =>
                cases pushed : shiftIn? lossless code digit with
                | none => simp [pushed]
                | some next => simpa [pushed] using ih next rest
          · have large := Nat.le_of_not_lt ascii
            have stuck (word : List Char) (code : UInt32) :
                (bytes (c :: word)).foldlM
                  (fun code byte => (digit? byte).bind (shiftIn? lossless code)) code = none := by
              obtain ⟨byte, more, same, high⟩ := bytes_of_large large word
              rw [same, List.foldlM_cons, digit_of_large high]
              rfl
            rw [value_of_large large]
            split
            · simp [Option.bind_map, stuck]
            · rfl

theorem digits_none {count : Nat} {code : UInt32} {text : List Char}
    (short : text.length < count) : digits? count code text = none := by
  induction count generalizing code text with
  | zero => cases short
  | succ count ih =>
      cases text with
      | nil => rfl
      | cons c rest =>
          simp only [digits?, ih (Nat.lt_of_succ_lt_succ short), Option.bind_fun_none]

theorem digits_cons {number : Nat} (small : number < 0x10000000) (count : Nat) (c : Char)
    (rest : List Char) :
    digits? (count + 1) (UInt32.ofNat number) (c :: rest) =
      (Hex.value? c).bind fun digit => digits? count (UInt32.ofNat (number * 16 + digit)) rest := by
  rw [digits?]
  cases known : Hex.value? c with
  | none => rfl
  | some digit =>
      have isDigit := (Hex.isDigit_of_value known).lt
      rw [Option.bind_some, Option.bind_some, lossless_keeps.shiftIn small isDigit,
        Option.bind_some]

theorem digits_four (text : List Char) :
    digits? 4 0 text = (fourDigits? text).map UInt32.ofNat := by
  unfold fourDigits?
  split
  · rename_i a b c d rest
    simp only [Hex.ofFour?, Option.bind_eq_bind, Option.pure_def]
    rw [show (0 : UInt32) = UInt32.ofNat 0 from rfl, digits_cons (by decide)]
    cases first : Hex.value? a with
    | none => rfl
    | some a =>
    have isFirst := (Hex.isDigit_of_value first).lt
    rw [Option.bind_some, Option.bind_some, digits_cons (by omega)]
    cases second : Hex.value? b with
    | none => rfl
    | some b =>
    have isSecond := (Hex.isDigit_of_value second).lt
    rw [Option.bind_some, Option.bind_some, digits_cons (by omega)]
    cases third : Hex.value? c with
    | none => rfl
    | some c =>
    have isThird := (Hex.isDigit_of_value third).lt
    rw [Option.bind_some, Option.bind_some, digits_cons (by omega)]
    cases Hex.value? d with
    | none => rfl
    | some d =>
    have same : (((0 * 16 + a) * 16 + b) * 16 + c) * 16 + d = a * 4096 + b * 256 + c * 16 + d := by
      omega
    rw [Option.bind_some, Option.bind_some, digits?, same, Option.map_some]
  · rename_i short
    apply digits_none
    rcases text with _ | ⟨a, _ | ⟨b, _ | ⟨c, _ | ⟨d, rest⟩⟩⟩⟩
    case cons.cons.cons.cons => exact absurd rfl (short a b c d rest)
    all_goals simp

theorem fourAt_eq {front : List Char} (ascii : IsAscii front) (text : List Char) :
    fourAt? front.length (front ++ text) = (fourDigits? text).map UInt32.ofNat := by
  rw [fourAt?, ascii.split, Option.bind_eq_bind, Option.bind_some, ← digits_four, ← foldlM_bytes]

theorem toNat_fourDigits {text : List Char} {number : Nat}
    (known : fourDigits? text = some number) :
    (UInt32.ofNat number).toNat = number := by
  obtain ⟨digits, _, _, length, numeral⟩ := numeral_of_fourDigits known
  have small := numeral.lt
  rw [length] at small
  have fits : Nat.pow 16 4 ≤ UInt32.size := by decide
  exact UInt32.toNat_ofNat_of_lt' (Nat.lt_of_lt_of_le small fits)

theorem trailingHalf_unmarked {behind : List Char}
    (unmarked : ¬['\\', 'u'].isPrefixOf behind = true) : trailingHalf? behind = none := by
  unfold trailingHalf?
  split
  · exact absurd rfl unmarked
  · rfl

theorem between_of_trailingHalf {behind : List Char} {low : Nat}
    (known : trailingHalf? behind = some low) :
    (UInt32.ofNat low).toNat = low ∧ 0xDC00 ≤ low ∧ low ≤ 0xDFFF := by
  obtain ⟨digits, rest, rfl, length, numeral, between⟩ := numeral_of_trailingHalf known
  exact ⟨UInt32.toNat_ofNat_of_lt' (by rw [UInt32.size]; omega), between⟩

section
variable {digits : List Char} (ascii : IsAscii digits) (length : digits.length = 4)
include ascii length

theorem secondHalf_eq (behind : List Char) :
    secondHalf? ('\\' :: 'u' :: (digits ++ behind)) =
      some ((trailingHalf? behind).map UInt32.ofNat) := by
  have front : IsAscii (['\\', 'u'] ++ digits) := isAscii_append.mpr ⟨isAscii_mark, ascii⟩
  have cut := front.split behind
  rw [List.length_append, length] at cut
  have opened : '\\' :: 'u' :: (digits ++ behind) = (['\\', 'u'] ++ digits) ++ behind := rfl
  rw [secondHalf?, opened]
  simp only [List.length_cons, List.length_nil] at cut
  simp only [cut, Option.bind_eq_bind, Option.bind_some]
  by_cases marked : ['\\', 'u'].isPrefixOf behind = true
  · obtain ⟨rest, rfl⟩ := List.isPrefixOf_iff_prefix.mp marked
    have four := fourAt_eq (isAscii_append.mpr ⟨front, isAscii_mark⟩) rest
    rw [List.length_append, List.length_append, length, List.append_assoc] at four
    have half : trailingHalf? (['\\', 'u'] ++ rest) =
      (fourDigits? rest).filter isTrailingSurrogate := rfl
    simp only [List.length_cons, List.length_nil] at four
    rw [if_pos marked, four, half]
    cases known : fourDigits? rest with
    | none => rfl
    | some low =>
        simp only [Option.map_some, Option.filter_some, toNat_fourDigits known]
        split <;> rfl
  · rw [if_neg marked, trailingHalf_unmarked marked]
    rfl

theorem Shift.Keeps.pair {shift : Shift} (keeps : shift.Keeps) (leading : UInt32)
    (leads : 0xD800 ≤ leading.toNat ∧ leading.toNat ≤ 0xDBFF) (behind : List Char) :
    pair? shift leading ('\\' :: 'u' :: (digits ++ behind)) =
      some ((trailingHalf? behind).bind fun low =>
        scalar? (0x10000 + (leading.toNat - 0xD800) * 0x400 + (low - 0xDC00))) := by
  rw [pair?, secondHalf_eq ascii length, Option.bind_eq_bind, Option.bind_some]
  cases known : trailingHalf? behind with
  | none => rfl
  | some low =>
      obtain ⟨same, between⟩ := between_of_trailingHalf known
      obtain ⟨code, isCode, codeValue⟩ :=
        keeps.combine leading (UInt32.ofNat low) leads (by rw [same]; exact between)
      rw [same] at codeValue
      rw [Option.map_some]
      dsimp only
      rw [isCode, Option.bind_eq_bind, Option.bind_some, codeValue, Option.pure_def,
        Option.bind_some]

end

def counted (found : Escape) : Escape := (found.1, found.2 + 1)

theorem Shift.Keeps.decodeFour_eq {shift : Shift} (keeps : shift.Keeps) (rest : List Char) :
    decodeFour shift ('\\' :: 'u' :: rest) = some (
      match fourDigitEscape? rest with
      | some found => .ok (counted found)
      | none => .error (fourDigitFault ('u' :: rest))) := by
  have four : fourAt? 2 ('\\' :: 'u' :: rest) = (fourDigits? rest).map UInt32.ofNat :=
    fourAt_eq isAscii_mark rest
  rw [decodeFour, four]
  cases known : fourDigits? rest with
  | none =>
      have nothing : fourDigitEscape? rest = none := by
        rw [fourDigitEscape?, known]
        rfl
      rw [nothing]
      rfl
  | some code =>
      have same := toNat_fourDigits known
      rw [Option.map_some]
      dsimp only
      rw [same]
      by_cases leads : isLeadingSurrogate code = true
      · obtain ⟨word, behind, rfl, length, numeral⟩ := numeral_of_fourDigits known
        have between := isLeadingSurrogate_iff.mp leads
        have pair := keeps.pair (isAscii_of_numeral numeral) length (UInt32.ofNat code)
          (by rw [same]; exact between) behind
        rw [same] at pair
        have left : (word ++ behind).drop 4 = behind := by rw [← length, List.drop_left]
        rw [scalar_surrogate between, fourDigitEscape_leading known between, left]
        dsimp only
        rw [if_pos leads, pair]
        cases (trailingHalf? behind).bind fun low =>
            scalar? (0x10000 + (code - 0xD800) * 0x400 + (low - 0xDC00)) with
        | none => rfl
        | some c => rfl
      · rw [fourDigitEscape_alone known leads]
        cases scalar? code with
        | none => exact if_neg leads
        | some c => rfl

/-! Braced escapes. -/

theorem braced_cons {c : Char} (opened : c ≠ '}') (shift : Shift) (code : UInt32)
    (size budget : Nat) (rest : List Char) :
    braced shift code size (budget + 1) (bytes (c :: rest)) =
      match Hex.value? c with
      | none => some (.error (size + 1))
      | some digit =>
          (shiftIn? shift code digit).bind fun next =>
            if 0x7FFFFFFF < next then some (.error (size + 1))
            else braced shift next (size + 1) budget (bytes rest) := by
  by_cases ascii : c.toNat < 128
  · have noBrace : UInt8.ofNat c.toNat ≠ 0x7D := by
      intro same
      apply opened
      rw [← ofNat_toNat ascii, same]
      rfl
    rw [bytes_of_ascii ascii, braced, if_neg noBrace, digit_of_ascii ascii]
  · have large := Nat.le_of_not_lt ascii
    obtain ⟨byte, more, same, high⟩ := bytes_of_large large rest
    have noBrace : byte ≠ 0x7D := by
      rintro rfl
      exact absurd high (by decide)
    rw [same, braced, if_neg noBrace, digit_of_large high, value_of_large large]

theorem ne_brace_of_value {c : Char} {digit : Nat} (known : Hex.value? c = some digit) :
    c ≠ '}' := by
  rintro rfl
  cases known

theorem Shift.Keeps.braced_digit {shift : Shift} (keeps : shift.Keeps) {c : Char} {digit : Nat}
    (known : Hex.value? c = some digit) {number : Nat} (small : number < 0x10000000)
    (size budget : Nat) (rest : List Char) :
    braced shift (UInt32.ofNat number) size (budget + 1) (bytes (c :: rest)) =
      if number * 16 + digit > maxBracedCode then some (.error (size + 1))
      else
        braced shift (UInt32.ofNat (number * 16 + digit)) (size + 1) budget (bytes rest) := by
  have isDigit := (Hex.isDigit_of_value known).lt
  have limit : 0x7FFFFFFF < UInt32.ofNat (number * 16 + digit) ↔
      number * 16 + digit > maxBracedCode := by
    rw [UInt32.lt_iff_toNat_lt, UInt32.toNat_ofNat_of_lt' (by rw [UInt32.size]; omega)]
    rfl
  rw [braced_cons (ne_brace_of_value known), known]
  simp only [keeps.shiftIn small isDigit, Option.bind_some, limit]

/-- Up to eight digits are taken into a word with no bits lost. -/
theorem Shift.Keeps.braced_of_numeral {shift : Shift} (keeps : shift.Keeps) {digits : List Char}
    {number : Nat} (numeral : Hex.Numeral digits number) (few : digits.length ≤ 8)
    (small : number ≤ maxBracedCode) (rest : List Char) :
    braced shift 0 3 9 (bytes (digits ++ rest)) =
      braced shift (UInt32.ofNat number) (digits.length + 3) (9 - digits.length)
        (bytes rest) := by
  induction numeral generalizing rest with
  | nil => rfl
  | @snoc digits number value c _ last ih =>
      rw [List.length_append, List.length_singleton] at few ⊢
      have known := Hex.value_of_isDigit last
      have limit : maxBracedCode = 0x7FFFFFFF := rfl
      have budget : 9 - digits.length = 9 - (digits.length + 1) + 1 := by omega
      rw [List.append_assoc, List.singleton_append, ih (by omega) (by omega), budget,
        keeps.braced_digit known (by omega), if_neg (Nat.not_lt.mpr small)]

/-- Nine digits of which the first is pushed out of a word by the last. No text with nine digits is
an escape. -/
inductive Spills : List Char → Prop
  | ninth {digits rest : List Char} {number value : Nat} {c : Char} (length : digits.length = 8)
      (numeral : Hex.Numeral digits number) (large : 0x10000000 ≤ number)
      (small : number ≤ maxBracedCode) (next : Hex.IsDigit c value) :
      Spills ('u' :: '{' :: (digits ++ c :: rest))

/-- No digit of the escape that a text begins with is without a result. -/
def Shift.Takes (shift : Shift) (text : List Char) : Prop :=
  (∀ word, (shift word 4).isSome) ∨ ¬Spills text

theorem length_of_large {digits : List Char} {number : Nat}
    (numeral : Hex.Numeral digits number) (large : 0x10000000 ≤ number) : 8 ≤ digits.length := by
  refine Nat.le_of_not_lt fun few => ?_
  have bound := numeral.lt
  have most : Nat.pow 16 digits.length ≤ Nat.pow 16 7 :=
    Nat.pow_le_pow_right (by decide) (by omega)
  have seven : Nat.pow 16 7 = 0x10000000 := rfl
  omega

/-- Behind a ninth digit nothing more is looked at, so that its number does not matter. -/
theorem braced_ninth {shift : Shift} {code : UInt32} (result : (shift code 4).isSome) {c : Char}
    {digit : Nat} (known : Hex.value? c = some digit) (size : Nat) (rest : List Char) :
    braced shift code size 1 (bytes (c :: rest)) = some (.error (size + 1)) := by
  obtain ⟨word, pushed⟩ := Option.isSome_iff_exists.mp result
  rw [braced_cons (ne_brace_of_value known), known]
  simp only [shiftIn?, pushed, Option.map_some, Option.bind_some, braced, ite_self]

theorem bracedEscape_ninth {number : Nat} {c : Char} {digit : Nat}
    (known : Hex.value? c = some digit) (size : Nat) (rest : List Char) :
    bracedEscape number size 1 (c :: rest) = .error (size + 1) := by
  simp only [bracedEscape, if_neg (ne_brace_of_value known), known, ite_self]

/-- Seven digits fit into 28 bits, and behind eight a brace has to follow: a number from which the
next digit pushes bits is that of eight digits. -/
theorem Shift.Keeps.braced_eq {shift : Shift} (keeps : shift.Keeps) {front text : List Char}
    {number size budget : Nat} (takes : shift.Takes ('u' :: '{' :: (front ++ text)))
    (numeral : Hex.Numeral front number) (small : number ≤ maxBracedCode)
    (length : front.length + budget = 9) :
    braced shift (UInt32.ofNat number) size budget (bytes text) =
      some ((bracedEscape number size budget text).map counted) := by
  induction budget generalizing front number size text with
  | zero => rfl
  | succ budget ih =>
      cases text with
      | nil => rfl
      | cons c rest =>
          by_cases closes : c = '}'
          · subst closes
            have brace : UInt8.ofNat '}'.toNat = 0x7D := rfl
            rw [bytes_of_ascii (by decide), braced, bracedEscape, if_pos brace, if_pos rfl,
              toNat_of_small small]
            split
            · rfl
            · cases scalar? number with
              | none => rfl
              | some found => rfl
          cases known : Hex.value? c with
          | none =>
              rw [braced_cons closes, bracedEscape, if_neg closes, known]
              rfl
          | some digit =>
              have isDigit := Hex.isDigit_of_value known
              by_cases fits : number < 0x10000000
              · rw [keeps.braced_digit known fits, bracedEscape, if_neg closes, known]
                dsimp only
                split
                · rfl
                · rename_i within
                  have longer : front ++ c :: rest = front ++ [c] ++ rest := by simp
                  rw [longer] at takes
                  exact ih takes (numeral.snoc isDigit) (Nat.le_of_not_lt within)
                    (by rw [List.length_append, List.length_singleton]; omega)
              · -- The number is that of eight digits, and this is the ninth.
                have large := Nat.le_of_not_lt fits
                have eight := length_of_large numeral large
                obtain rfl : budget = 0 := by omega
                rcases takes with total | none
                · rw [braced_ninth (total _) known, bracedEscape_ninth known]
                  rfl
                · exact absurd (.ninth (by omega) numeral large small isDigit) none

theorem bracedEscape_of_nine {digits rest : List Char} {number value : Nat} {c : Char}
    (length : digits.length = 8) (numeral : Hex.Numeral digits number)
    (small : number ≤ maxBracedCode) (next : Hex.IsDigit c value) :
    bracedEscape 0 3 9 (digits ++ c :: rest) = .error 12 := by
  rw [bracedEscape_of_numeral numeral (by omega) small, length,
    bracedEscape_ninth (Hex.value_of_isDigit next)]

theorem coverBytes_one (c : Char) (rest : List Char) : coverBytes 1 (c :: rest) = [c] := by
  have positive := c.utf8Size_pos
  have none : 1 - c.utf8Size = 0 := by omega
  rw [coverBytes, if_neg (by decide), none]
  cases rest <;> rfl

/-- Of what a bad escape was looked at, only the last character can have several bytes. -/
theorem coverBytes_of_bracedEscape {code size budget looked : Nat} {text : List Char}
    (failed : bracedEscape code size budget text = .error looked) :
    ∃ more, looked = size + more ∧ coverBytes more text = text.take more := by
  fun_induction bracedEscape code size budget text with
  | case1 code size text =>
      cases failed
      exact ⟨0, rfl, by cases text <;> rfl⟩
  | case2 =>
      cases failed
      exact ⟨0, rfl, rfl⟩
  | case3 | case5 | case6 | case7 =>
      cases failed
      exact ⟨1, rfl, coverBytes_one _ _⟩
  | case4 => cases failed
  | case8 code size budget c rest opened digit known small ih =>
      obtain ⟨more, rfl, covered⟩ := ih failed
      refine ⟨more + 1, by omega, ?_⟩
      rw [coverBytes, if_neg (Nat.succ_ne_zero more), utf8Size_of_ascii (toNat_of_value known),
        Nat.add_sub_cancel, covered]
      rfl

theorem Shift.Keeps.decodeBraced_eq {shift : Shift} (keeps : shift.Keeps) {rest : List Char}
    (takes : shift.Takes ('u' :: '{' :: rest)) :
    decodeBraced shift ('\\' :: 'u' :: '{' :: rest) = some (
      match bracedEscape 0 3 9 rest with
      | .ok found => .ok (counted found)
      | .error size =>
          .error (.invalidUnicodeEscape ('\\' :: ('u' :: '{' :: rest).take (size - 1)))) := by
  have behind : (bytes ('\\' :: 'u' :: '{' :: rest)).drop 3 = bytes rest := rfl
  have same : braced shift 0 3 9 (bytes rest) = some ((bracedEscape 0 3 9 rest).map counted) :=
    @Shift.Keeps.braced_eq shift keeps [] rest 0 3 9 takes .nil (Nat.zero_le _) rfl
  rw [decodeBraced, behind, same]
  cases known : bracedEscape 0 3 9 rest with
  | ok found => rfl
  | error looked =>
      obtain ⟨more, rfl, covered⟩ := coverBytes_of_bracedEscape known
      have front : coverBytes (3 + more) ('\\' :: 'u' :: '{' :: rest) =
          '\\' :: ('u' :: '{' :: rest).take (3 + more - 1) := by
        have length : 3 + more = more + 1 + 1 + 1 := by omega
        have ascii {c : Char} (ascii : c.toNat < 128) (bytes : Nat) (text : List Char) :
            coverBytes (bytes + 1) (c :: text) = c :: coverBytes bytes text := by
          rw [coverBytes, if_neg (Nat.succ_ne_zero bytes), utf8Size_of_ascii ascii,
            Nat.add_sub_cancel]
        rw [length, ascii (by decide), ascii (by decide), ascii (by decide), covered]
        rfl
      exact congrArg (fun text => some (Except.error (Fault.invalidUnicodeEscape text))) front

/-! All escapes. -/

theorem escape_of_other {c : Char} (other : c ≠ 'u') (rest : List Char) :
    escape (c :: rest) =
      match shortEscapes.lookup c with
      | some found => .ok (found, 1)
      | none => .error (.unknownEscape c) := by
  cases known : shortEscapes.lookup c with
  | some found =>
      obtain ⟨before, behind, entries, _⟩ := List.lookup_eq_some_iff.mp known
      have listed : (c, found) ∈ shortEscapes := by simp [entries]
      exact escape_of_short listed rest
  | none =>
      have missing := List.lookup_eq_none_iff.mp known
      simp only [shortEscapes, List.forall_mem_cons, bne_iff_ne] at missing
      unfold escape
      split <;> simp_all

theorem decode_unicode (shift : Shift) (rest : List Char) :
    decode shift ('\\' :: 'u' :: rest) =
      if rest.head? = some '{' then decodeBraced shift ('\\' :: 'u' :: rest)
      else decodeFour shift ('\\' :: 'u' :: rest) := by
  have cut : splitBytes? 2 ('\\' :: 'u' :: rest) = some (['\\', 'u'], rest) :=
    isAscii_mark.split rest
  simp only [decode, List.drop_succ_cons, List.drop_zero, if_true, cut, Option.bind_eq_bind,
    Option.bind_some]

section
variable {shift : Shift} (keeps : shift.Keeps) {text : List Char} (takes : shift.Takes text)
include keeps takes

theorem Shift.Keeps.decode_eq :
    decode shift ('\\' :: text) = some ((escape text).map counted) := by
  cases text with
  | nil => rfl
  | cons c rest =>
      by_cases unicode : c = 'u'
      · subst unicode
        rw [decode_unicode]
        by_cases opens : rest.head? = some '{'
        · obtain ⟨digits, rfl⟩ := List.head?_eq_some_iff.mp opens
          rw [if_pos opens, keeps.decodeBraced_eq takes, escape]
          cases bracedEscape 0 3 9 digits with
          | ok found => rfl
          | error size => rfl
        · have noBrace : ∀ behind, rest ≠ '{' :: behind := by
            rintro behind rfl
            exact opens rfl
          rw [if_neg opens, keeps.decodeFour_eq]
          simp only [escape]
          cases fourDigitEscape? rest with
          | some found => rfl
          | none => rfl
      · simp only [decode, List.drop_succ_cons, List.drop_zero, if_neg unicode,
          escape_of_other unicode]
        cases shortEscapes.lookup c with
        | some found => rfl
        | none => rfl

/-- Reading bytes into words decodes every escape, and no cut, sum or difference on the way is
without a result. -/
theorem Shift.Keeps.read_eq : read shift ('\\' :: text) = some (decoded text) := by
  rw [read, keeps.decode_eq takes]
  unfold decoded
  cases known : escape text with
  | error fault => rfl
  | ok found =>
      obtain ⟨word, rest, rfl, length, escapes⟩ := escapes_of_escape known
      have slash : '\\'.toNat < 128 := by decide
      have cut := (isAscii_cons.mpr ⟨slash, isAscii_of_escapes escapes⟩).split rest
      rw [List.length_cons, ← length] at cut
      have behind : (word ++ rest).drop found.2 = rest := by rw [length, List.drop_left]
      simp only [Except.map, counted, Option.bind_eq_bind, Option.bind_some, behind]
      rw [List.cons_append] at cut
      rw [cut]
      rfl

end

theorem read_lossy (text : List Char) : read lossy ('\\' :: text) = some (decoded text) :=
  lossy_keeps.read_eq (.inl fun _ => rfl)

theorem read_spills {text : List Char} (spills : Spills text) :
    read lossless ('\\' :: text) = none ∧
      ∃ fault, escape text = .error fault ∧ fault.kind = .invalidString := by
  obtain @⟨digits, rest, number, value, c, length, numeral, large, small, next⟩ := spills
  have known := Hex.value_of_isDigit next
  rw [← toNat_of_small small] at large
  have lost : braced lossless 0 3 9 (bytes (digits ++ c :: rest)) = none := by
    rw [lossless_keeps.braced_of_numeral numeral (by omega) small, length,
      braced_cons (ne_brace_of_value known), known]
    simp only [shiftIn_lossless large, Option.bind_none]
  refine ⟨?_, ?_⟩
  · have behind : (bytes ('\\' :: 'u' :: '{' :: (digits ++ c :: rest))).drop 3 =
        bytes (digits ++ c :: rest) := rfl
    rw [read, decode_unicode, List.head?_cons, if_pos rfl, decodeBraced, behind, lost]
    rfl
  · rw [escape, bracedEscape_of_nine length numeral small next]
    exact ⟨_, rfl, rfl⟩

end Lexical.Bytewise

end GraphQL
