import Retrace.Text.Digits

/-!
# Strings of the configuration

A configuration is written in TOML, which has four forms of strings: between quotation marks with
escapes, between apostrophes without, and both forms with the mark tripled, which may hold line
breaks and up to two marks in a row.
-/

namespace Retrace.Settings

/-- A blank within a line. -/
def isGap (c : Char) : Bool :=
  c = ' ' || c = '\t'

/-- A character that may stand for itself within a line: all but the control characters. -/
def isPlain (c : Char) : Bool :=
  c = '\t' || (' ' ≤ c && c ≠ '\x7f')

/-- Read a line break. -/
def lineBreak? : Text → Option (Text × Text)
  | '\n' :: rest => some (['\n'], rest)
  | '\r' :: '\n' :: rest => some (['\r', '\n'], rest)
  | _ => none

/-- Skip blanks, line breaks and comments; a flag says whether a comment is open. A comment holds no
control characters. -/
def skipLines? (comment : Bool) : Text → Option Text
  | [] => some []
  | '\n' :: rest => skipLines? false rest
  | '\r' :: '\n' :: rest => skipLines? false rest
  | c :: rest =>
    if comment then
      if isPlain c then skipLines? true rest else none
    else if isGap c then skipLines? false rest
    else if c = '#' then skipLines? true rest
    else some (c :: rest)

/-- Read a character by exactly `count` hexadecimal digits. -/
def numbered? (count : Nat) (text : Text) : Option (Char × Text) :=
  if text.length < count then none
  else ((Text.digits? 16 (text.take count)).bind Text.scalar?).map fun c => (c, text.drop count)

/-- Read an escaped character from behind the backslash. -/
def escaped? : Text → Option (Char × Text)
  | '"' :: rest => some ('"', rest)
  | '\\' :: rest => some ('\\', rest)
  | 'b' :: rest => some ('\x08', rest)
  | 'e' :: rest => some ('\x1b', rest)
  | 'f' :: rest => some ('\x0c', rest)
  | 'n' :: rest => some ('\n', rest)
  | 'r' :: rest => some ('\r', rest)
  | 't' :: rest => some ('\t', rest)
  | 'x' :: rest => numbered? 2 rest
  | 'u' :: rest => numbered? 4 rest
  | 'U' :: rest => numbered? 8 rest
  | _ => none

/-- Read a string of one line from behind its opening quotation mark, in at most `bound` steps;
`read` holds what has been read, the last character first. -/
def basicFrom? : (bound : Nat) → (read : Text) → Text → Option (Text × Text)
  | 0, _, _ => none
  | _ + 1, _, [] => none
  | bound + 1, read, c :: rest =>
    if c = '"' then some (read.reverse, rest)
    else if c = '\\' then
      match escaped? rest with
      | some (c, rest) => basicFrom? bound (c :: read) rest
      | none => none
    else if isPlain c then basicFrom? bound (c :: read) rest
    else none

/-- Read a string of one line without escapes from behind its opening apostrophe. -/
def literal? (text : Text) : Option (Text × Text) :=
  match text.dropWhile fun c => isPlain c && c ≠ '\'' with
  | '\'' :: rest => some (text.takeWhile fun c => isPlain c && c ≠ '\'', rest)
  | _ => none

/-- Skip blanks and line breaks. -/
def skipBreaks : Text → Text
  | [] => []
  | '\r' :: '\n' :: rest => skipBreaks rest
  | c :: rest => if isGap c || c = '\n' then skipBreaks rest else c :: rest

/-- Read what a backslash in a string of several lines stands for: nothing, if only blanks follow it
in its line, and then the blanks and line breaks behind it count for nothing, too. -/
def continued? (text : Text) : Option (Text × Text) :=
  if (lineBreak? (text.dropWhile isGap)).isSome then
    some ([], skipBreaks text)
  else (escaped? text).map fun (c, rest) => ([c], rest)

/-- Read a string of several lines from behind its opening marks, in at most `bound` steps. Three
marks in a row close it; up to two more before them belong to it. -/
def blockFrom? (mark : Char) (escapes : Bool) : (bound : Nat) → (read : Text) → Text →
    Option (Text × Text)
  | 0, _, _ => none
  | _ + 1, _, [] => none
  | bound + 1, read, c :: rest =>
    if c = mark then
      let marks := ((c :: rest).takeWhile (· = mark)).length
      if 3 ≤ marks then
        -- The last three close the string.
        let used := min marks 5
        some (read.reverse ++ List.replicate (used - 3) mark, (c :: rest).drop used)
      else blockFrom? mark escapes bound (c :: read) rest
    else if escapes && c = '\\' then
      match continued? rest with
      | some (written, rest) => blockFrom? mark escapes bound (written ++ read) rest
      | none => none
    else match lineBreak? (c :: rest) with
      | some (written, rest) => blockFrom? mark escapes bound (written.reverse ++ read) rest
      | none => if isPlain c then blockFrom? mark escapes bound (c :: read) rest else none

/-- Read a string of several lines from behind its opening marks; a line break right behind them
does not count. -/
def block? (mark : Char) (escapes : Bool) (text : Text) : Option (Text × Text) :=
  let text := match lineBreak? text with
    | some (_, rest) => rest
    | none => text
  blockFrom? mark escapes text.length [] text

/-- Read a string of one line. -/
def lineString? : Text → Option (Text × Text)
  | '"' :: rest => basicFrom? rest.length [] rest
  | '\'' :: rest => literal? rest
  | _ => none

/-- Read a string of any form. -/
def string? : Text → Option (Text × Text)
  | '"' :: '"' :: '"' :: rest => block? '"' true rest
  | '\'' :: '\'' :: '\'' :: rest => block? '\'' false rest
  | text => lineString? text

end Retrace.Settings
