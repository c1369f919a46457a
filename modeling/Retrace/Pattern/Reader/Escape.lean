import Retrace.Pattern.Reader.Flags

/-!
# Escapes in patterns

A backslash in a pattern starts a character written by number, a class of characters, a condition
on the place, or makes a punctuation mark stand for itself. `Escape.read?` reads the part behind
the backslash.
-/

namespace Retrace.Pattern

/-- What an escape stands for. -/
inductive Escape where
  /-- A single character. -/
  | char (c : Char)
  /-- A class of characters. -/
  | set (chars : CharSet)
  /-- A condition on the place. -/
  | look (condition : Look)

namespace Escape

/-- Punctuation marks with a meaning of their own in patterns. -/
def isMeta (c : Char) : Bool :=
  c ∈ ['\\', '.', '+', '*', '?', '(', ')', '|', '[', ']', '\x7b', '\x7d', '^', '$', '#', '&', '-',
    '~']

/-- Characters that may be escaped to stand for themselves. -/
def isEscapable (c : Char) : Bool :=
  isMeta c || (c.toNat < 128 && !c.isAlphanum && c ≠ '<' && c ≠ '>')

/-- The character that some hexadecimal digits stand for. -/
def hexChar? (digits : Text) : Option Char := do
  Text.scalar? (← Text.digits? 16 digits)

/-- Read exactly `count` hexadecimal digits as a character; `digits` have been read before, the
latest first. -/
def fixedHex? (flags : Flags) (digits : Text) : (count : Nat) → Text → Option (Char × Text)
  | 0, text => (hexChar? digits.reverse).map fun c => (c, text)
  | _ + 1, [] => none
  | count + 1, c :: rest => fixedHex? flags (c :: digits) count (flags.skip rest)

/-- Take what stands before the closing brace, without what is skipped; `taken` has been taken
before, the latest first. There are at most `bound` characters. -/
def braced? (flags : Flags) (taken : Text) : (bound : Nat) → Text → Option (Text × Text)
  | bound, text =>
    match bound, flags.skip text with
    | _, '\x7d' :: behind => some (taken.reverse, behind)
    | bound + 1, c :: rest => braced? flags (c :: taken) bound rest
    | _, _ => none

/-- Read a character by number: in braces, or with a fixed number of digits. With two digits and
classes of ASCII alone, the number is that of a byte, which has to be a character. -/
def hex? (flags : Flags) (count : Nat) (text : Text) : Option (Char × Text) := do
  match flags.skip text with
  | '\x7b' :: rest =>
    let (digits, behind) ← braced? flags [] rest.length rest
    return (← hexChar? digits, flags.skip behind)
  | text =>
    let (c, behind) ← fixedHex? flags [] count text
    if !flags.unicode ∧ count = 2 ∧ 128 ≤ c.toNat then none else return (c, behind)

/-- Cut a text before the first place where `mark` stands, and behind it. -/
def cutAt (mark text : Text) : Option (Text × Text) :=
  go [] text
where
  /-- Cut, with the text passed so far, the last character first. -/
  go (passed : Text) : Text → Option (Text × Text)
    | [] => none
    | c :: rest =>
      if mark.isPrefixOf (c :: rest) then some (passed.reverse, (c :: rest).drop mark.length)
      else go (c :: passed) rest

/-- The set that a property stands for; a value stands behind the first of some marks. -/
def property? (name : Text) : Option CharSet :=
  match (cutAt ['!', '='] name).or ((cutAt [':'] name).or (cutAt ['='] name)) with
  | some (name, value) => Unicode.Name.setWith? name value
  | none => Unicode.Name.set? name

/-- Read a property, in braces or with a name of one letter. -/
def propertyClass? (flags : Flags) (negated : Bool) (text : Text) : Option (CharSet × Text) := do
  let (chars, behind) ← match flags.skip text with
    | '\x7b' :: rest => do
      let (name, behind) ← braced? flags [] rest.length rest
      pure (← property? name, behind)
    | c :: rest => if c = '\\' then none else do pure (← property? [c], flags.skip rest)
    | [] => none
  if flags.unicode then return (← flags.negate? negated (flags.close chars), behind) else none

/-- The relation of words that a name in braces behind the boundary escape stands for. -/
def wordEdge? (name : Text) : Option WordEdge :=
  match String.ofList name with
  | "start" => some .start
  | "end" => some .stop
  | "start-half" => some .startHalf
  | "end-half" => some .stopHalf
  | _ => none

/-- Read what follows the boundary escape: a name in braces, or nothing that belongs to it. -/
def boundary? (flags : Flags) (text : Text) : Option (WordEdge × Text) :=
  match text with
  | '\x7b' :: rest =>
    match flags.skip rest with
    | [] => none
    | first :: _ =>
      if first.isAlpha || first = '-' then do
        let (name, behind) ← braced? flags [] rest.length rest
        return (← wordEdge? name, behind)
      else some (.boundary, text)
  | _ => some (.boundary, text)

/-- The character that an escaped letter stands for. -/
def control? (letter : Char) : Option Char :=
  match letter with
  | 'a' => some '\x07'
  | 'f' => some '\x0c'
  | 't' => some '\t'
  | 'n' => some '\n'
  | 'r' => some '\r'
  | 'v' => some '\x0b'
  | _ => none

/-- Read an escape that starts with a letter. -/
def letter? (flags : Flags) (letter : Char) (rest : Text) : Option (Escape × Text) :=
  let word := fun edge => Look.word edge flags.unicode
  match letter with
  | 'x' => (hex? flags 2 rest).map fun (c, behind) => (.char c, behind)
  | 'u' => (hex? flags 4 rest).map fun (c, behind) => (.char c, behind)
  | 'U' => (hex? flags 8 rest).map fun (c, behind) => (.char c, behind)
  | 'p' | 'P' => (propertyClass? flags (letter = 'P') rest).map fun (chars, behind) =>
      (.set chars, behind)
  | 'A' => some (.look .textStart, rest)
  | 'z' => some (.look .textStop, rest)
  | 'b' => (boundary? flags rest).map fun (edge, behind) => (.look (word edge), behind)
  | 'B' => some (.look (word .noBoundary), rest)
  | _ =>
    match control? letter with
    | some c => some (.char c, rest)
    | none => do
      let chars ← Class.ofLetter? flags.unicode letter.toLower
      return (.set (← flags.negate? letter.isUpper chars), rest)

/-- Read the part of an escape behind the backslash. -/
def read? (flags : Flags) (text : Text) : Option (Escape × Text) :=
  match text with
  | [] => none
  | '<' :: rest => some (.look (.word .start flags.unicode), rest)
  | '>' :: rest => some (.look (.word .stop flags.unicode), rest)
  | c :: rest => if isEscapable c then some (.char c, rest) else letter? flags c rest

end Escape

end Retrace.Pattern
