import Retrace.Text.Digits

/-!
# Quoted texts

Texts in records stand between quotation marks. Quotation marks, backslashes and control characters
are escaped when a text is written; when one is read, every character may be escaped by its UTF-16
units in hexadecimal, surrogates only in pairs, and no control character may stand for itself.
-/

namespace Retrace.Record

/-- The digit for a number below sixteen, in lower case. -/
def hexDigit (value : Nat) : Char :=
  "0123456789abcdef".toList.getD value '0'

/-- Write one character of a quoted text. -/
def escape (c : Char) : Text :=
  match c with
  | '"' => ['\\', '"']
  | '\\' => ['\\', '\\']
  | '\x08' => ['\\', 'b']
  | '\x0c' => ['\\', 'f']
  | '\n' => ['\\', 'n']
  | '\r' => ['\\', 'r']
  | '\t' => ['\\', 't']
  | c =>
    if c.toNat < 32 then
      ['\\', 'u', '0', '0', hexDigit (c.toNat / 16), hexDigit (c.toNat % 16)]
    else [c]

/-- Write a text between quotation marks. -/
def quote (text : Text) : Text :=
  '"' :: text.flatMap escape ++ ['"']

/-- Read four hexadecimal digits. -/
def unit? (text : Text) : Option (Nat × Text) :=
  match text with
  | a :: b :: c :: d :: rest => (Text.digits? 16 [a, b, c, d]).map fun code => (code, rest)
  | _ => none

/-- The unit is the first half of a surrogate pair. -/
def isHigh (unit : Nat) : Bool :=
  0xd800 ≤ unit && unit < 0xdc00

/-- The unit is the second half of a surrogate pair. -/
def isLow (unit : Nat) : Bool :=
  0xdc00 ≤ unit && unit < 0xe000

/-- Read a character by its UTF-16 units, from behind the letter `u`. -/
def unicode? (text : Text) : Option (Char × Text) :=
  match unit? text with
  | some (unit, rest) =>
    if isHigh unit then
      match rest with
      | '\\' :: 'u' :: rest =>
        match unit? rest with
        | some (low, rest) =>
          if isLow low then
            some (Char.ofNat (0x10000 + (unit - 0xd800) * 0x400 + (low - 0xdc00)), rest)
          else none
        | none => none
      | _ => none
    else if isLow unit then none
    else some (Char.ofNat unit, rest)
  | none => none

/-- Read an escaped character from behind the backslash. -/
def escaped? (text : Text) : Option (Char × Text) :=
  match text with
  | '"' :: rest => some ('"', rest)
  | '\\' :: rest => some ('\\', rest)
  | '/' :: rest => some ('/', rest)
  | 'b' :: rest => some ('\x08', rest)
  | 'f' :: rest => some ('\x0c', rest)
  | 'n' :: rest => some ('\n', rest)
  | 'r' :: rest => some ('\r', rest)
  | 't' :: rest => some ('\t', rest)
  | 'u' :: rest => unicode? rest
  | _ => none

/-- Read a text from behind its opening quotation mark, in at most `bound` steps; `read` holds what
has been read so far, the last character first. -/
def unquoteFrom? : (bound : Nat) → (read : Text) → Text → Option (Text × Text)
  | 0, _, _ => none
  | _ + 1, _, [] => none
  | bound + 1, read, c :: rest =>
    if c = '"' then some (read.reverse, rest)
    else if c = '\\' then
      match escaped? rest with
      | some (c, rest) => unquoteFrom? bound (c :: read) rest
      | none => none
    else if c.toNat < 32 then none
    else unquoteFrom? bound (c :: read) rest

/-- Read a text from behind its opening quotation mark. -/
def unquote? (text : Text) : Option (Text × Text) :=
  unquoteFrom? text.length [] text

/-- Skip a text from behind its opening quotation mark. Nobody reads it, so surrogates need not
come in pairs. -/
def skipQuoted? : Text → Option Text
  | [] => none
  | '"' :: rest => some rest
  | '\\' :: 'u' :: a :: b :: c :: d :: rest =>
    if (Text.digits? 16 [a, b, c, d]).isSome then skipQuoted? rest else none
  | '\\' :: c :: rest =>
    if c ∈ ['"', '\\', '/', 'b', 'f', 'n', 'r', 't'] then skipQuoted? rest else none
  | c :: rest => if c.toNat < 32 ∨ c = '\\' then none else skipQuoted? rest

end Retrace.Record
