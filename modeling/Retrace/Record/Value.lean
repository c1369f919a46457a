import Retrace.Record.Quoted

/-!
# Values in records

A record is a JSON object. Its own fields hold quoted texts and natural numbers; fields that it does
not know may hold any value, which `Record.skipValue?` passes over.
-/

namespace Retrace.Record

/-- Skip the blanks that may stand between the parts of a record. -/
def skipBlanks (text : Text) : Text :=
  text.dropWhile fun c => c = ' ' || c = '\t' || c = '\n' || c = '\r'

/-- The text begins with an ASCII digit. -/
def startsWithDigit (text : Text) : Bool :=
  text.head?.any Char.isDigit

/-- Skip the integer part of a number: no digit follows a leading zero. -/
def skipInteger? (text : Text) : Option Text :=
  match text with
  | '0' :: rest => if startsWithDigit rest then none else some rest
  | c :: rest => if c.isDigit then some (rest.dropWhile Char.isDigit) else none
  | [] => none

/-- Skip at least one digit. -/
def skipDigits? (text : Text) : Option Text :=
  if startsWithDigit text then some (text.dropWhile Char.isDigit) else none

/-- Skip the fraction of a number, if there is one. -/
def skipFraction? (text : Text) : Option Text :=
  match text with
  | '.' :: rest => skipDigits? rest
  | _ => some text

/-- Skip the exponent of a number, if there is one. -/
def skipExponent? (text : Text) : Option Text :=
  match text with
  | c :: rest =>
    if c = 'e' ∨ c = 'E' then
      match rest with
      | '+' :: rest => skipDigits? rest
      | '-' :: rest => skipDigits? rest
      | _ => skipDigits? rest
    else some text
  | [] => some []

/-- Skip a number of any form. -/
def skipNumber? (text : Text) : Option Text :=
  let unsigned := match text with
    | '-' :: rest => rest
    | _ => text
  ((skipInteger? unsigned).bind skipFraction?).bind skipExponent?

/-- Read a natural number below `limit`, written without sign, fraction, exponent and leading
zeros. -/
def natural? (limit : Nat) (text : Text) : Option (Nat × Text) :=
  match skipInteger? text with
  | some rest =>
    if rest.head?.any fun c => c = '.' ∨ c = 'e' ∨ c = 'E' then none
    else
      ((Text.digits? 10 (text.take (text.length - rest.length))).filter (· < limit)).map
        fun value => (value, rest)
  | none => none

/-- A value that has been opened and not closed. -/
inductive Opened where
  /-- A list. -/
  | list
  /-- An object. -/
  | object
  deriving DecidableEq, Repr

/-- Skip the name of a field and the colon behind it. -/
def skipKey? (text : Text) : Option Text :=
  match skipBlanks text with
  | '"' :: rest =>
    match (skipQuoted? rest).map skipBlanks with
    | some (':' :: rest) => some rest
    | _ => none
  | _ => none

/-- Skip the part of a value at the head of a text: all of it, or up to the first value inside. The
flag says whether the value is complete. -/
def skipHead? (text : Text) : Option (Bool × List Opened × Text) :=
  let complete := fun (rest? : Option Text) =>
    rest?.map fun rest => (true, ([] : List Opened), rest)
  match text with
  | '[' :: rest =>
    match skipBlanks rest with
    | ']' :: rest => some (true, [], rest)
    | rest => some (false, [.list], rest)
  | '\x7b' :: rest =>
    match skipBlanks rest with
    | '\x7d' :: rest => some (true, [], rest)
    | rest => (skipKey? rest).map fun rest => (false, [.object], rest)
  | '"' :: rest => complete (skipQuoted? rest)
  | 't' :: 'r' :: 'u' :: 'e' :: rest => some (true, [], rest)
  | 'f' :: 'a' :: 'l' :: 's' :: 'e' :: rest => some (true, [], rest)
  | 'n' :: 'u' :: 'l' :: 'l' :: rest => some (true, [], rest)
  | _ => complete (skipNumber? text)

/-- Skip to the end of all opened values, in at most `bound` steps; `complete` says whether a value
inside the innermost one has just been completed. -/
def skipFrom? : (bound : Nat) → (complete : Bool) → List Opened → Text → Option Text
  | _, true, [], text => some text
  | 0, _, _, _ => none
  | bound + 1, false, opened, text =>
    match skipHead? (skipBlanks text) with
    | some (complete, inner, rest) => skipFrom? bound complete (inner ++ opened) rest
    | none => none
  | bound + 1, true, innermost :: outer, text =>
    match skipBlanks text, innermost with
    | ',' :: rest, .list => skipFrom? bound false (.list :: outer) rest
    | ',' :: rest, .object =>
      match skipKey? rest with
      | some rest => skipFrom? bound false (.object :: outer) rest
      | none => none
    | ']' :: rest, .list => skipFrom? bound true outer rest
    | '\x7d' :: rest, .object => skipFrom? bound true outer rest
    | _, _ => none

/-- Skip a value of any kind. -/
def skipValue? (text : Text) : Option Text :=
  skipFrom? (2 * text.length + 2) false [] text

end Retrace.Record
