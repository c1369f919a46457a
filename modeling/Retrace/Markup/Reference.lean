import Retrace.Markup.Token
import Retrace.Text.Digits
import Retrace.Text.Span

/-!
# Character references

In character data and attribute values some characters are written as references: `&lt;` and four
others by name, and any character by its number, as in `&#65;` or `&#x41;`. `decode` resolves the
references in a raw text, `encode` and `encodeValue` write the characters that need one.
-/

namespace Retrace.Markup

/-- The characters that have a reference by name. -/
def namedReferences : List (String × Char) :=
  [("lt", '<'), ("gt", '>'), ("amp", '&'), ("quot", '"'), ("apos", '\'')]

/-- Numbers of characters are below two to the power of 32. -/
def referenceLimit : Nat := 4294967296

/-- The character that a numeric reference stands for, where `digits` follows the number sign. -/
def numbered? (digits : Text) : Option Char :=
  let number? := match digits with
    | 'x' :: rest | 'X' :: rest => Text.numeral? 16 referenceLimit rest
    | _ => Text.numeral? 10 referenceLimit digits
  number?.bind Text.scalar?

/-- The character that a reference stands for. -/
def referenced? (name : Text) : Option Char :=
  match namedReferences.find? fun entry => entry.1.toList = name with
  | some (_, c) => some c
  | none =>
    match name with
    | '#' :: digits => numbered? digits
    | _ => none

/-- What is wrong with a reference. -/
inductive ReferenceError where
  /-- There is no semicolon behind the ampersand. -/
  | unterminated
  /-- The reference stands for nothing. -/
  | unknown (name : Text)
  deriving DecidableEq, Repr

/-- The wording of a fault. -/
def ReferenceError.message : ReferenceError → String
  | unterminated => "unterminated entity reference"
  | unknown name => s!"unknown entity '&{String.ofList name};'"

/-- Worker of `decode`: `offset` is where the text that is left begins, and `decoded` holds what has
been decoded, the last character first. -/
def decodeInto : (bound offset : Nat) → (decoded : Text) → Text →
    Except (ReferenceError × Span) Text
  | 0, _, decoded, _ => .ok decoded.reverse
  | bound + 1, offset, decoded, text =>
    let plain := text.takeWhile (· ≠ '&')
    let start := offset + Text.size plain
    match text.dropWhile (· ≠ '&') with
    | [] => .ok (plain.reverse ++ decoded).reverse
    | _ :: behind =>
      match Text.cut? [';'] behind with
      | none => .error (.unterminated, ⟨start, offset + Text.size text⟩)
      | some (name, rest) =>
        let stop := start + Text.size name + 2
        match referenced? name with
        | none => .error (.unknown name, ⟨start, stop⟩)
        | some c => decodeInto bound stop (c :: (plain.reverse ++ decoded)) rest

/-- Resolve the references in a raw text, which begins at `offset`; spans of faults are counted the
same way. -/
def decode (offset : Nat) (raw : Text) : Except (ReferenceError × Span) Text :=
  decodeInto (raw.length + 1) offset [] raw

/-- Write a character of character data. -/
def encodeChar : Char → Text
  | '&' => "&amp;".toList
  | '<' => "&lt;".toList
  | '>' => "&gt;".toList
  | c => [c]

/-- Write character data. -/
def encode (text : Text) : Text :=
  text.flatMap encodeChar

/-- Write a character of an attribute value between double quotation marks. -/
def encodeValueChar : Char → Text
  | '"' => "&quot;".toList
  | c => encodeChar c

/-- Write an attribute value between double quotation marks. -/
def encodeValue (text : Text) : Text :=
  text.flatMap encodeValueChar

end Retrace.Markup
