import Retrace.Pattern.Term
import Retrace.Text.Blank

/-!
# Flags of patterns

A pattern can change from within how the rest of a group is read: whether letter case counts,
whether classes cover all scripts, whether blanks are skipped and so on. What a character or a set
stands for depends on the flags in force. The functions of this module refuse what would match a
part of a character.
-/

namespace Retrace.Pattern

open Unicode (CaseFolding.variants CaseFolding.close CaseFolding.closeAscii)

/-- Settings that a pattern can change from within. -/
structure Flags where
  /-- Letters stand for all their case variants. -/
  anyCase : Bool := false
  /-- Line anchors hold at every line. -/
  multiLine : Bool := false
  /-- The dot stands for line feeds, too. -/
  dotAll : Bool := false
  /-- Repetitions are lazy unless marked. -/
  swapGreed : Bool := false
  /-- Classes cover all scripts. -/
  unicode : Bool := true
  /-- Carriage returns end lines, too. -/
  crlf : Bool := false
  /-- Blanks and comments in the pattern are skipped. -/
  verbose : Bool := false
  deriving Repr, DecidableEq

namespace Flags

/-- Set or clear the flag that a letter names. -/
def set? (flags : Flags) (value : Bool) (letter : Char) : Option Flags :=
  match letter with
  | 'i' => some { flags with anyCase := value }
  | 'm' => some { flags with multiLine := value }
  | 's' => some { flags with dotAll := value }
  | 'U' => some { flags with swapGreed := value }
  | 'u' => some { flags with unicode := value }
  | 'R' => some { flags with crlf := value }
  | 'x' => some { flags with verbose := value }
  | _ => none

/-- Skip blanks and comments, which go up to the end of the line, if the flags say so. -/
def skip (flags : Flags) (text : Text) : Text :=
  if flags.verbose then go false text else text
where
  /-- Skip with a flag that says whether a comment is open. -/
  go (comment : Bool) : Text → Text
    | [] => []
    | c :: rest =>
      if comment then go (c ≠ '\n') rest
      else if Text.isBlank c then go false rest
      else if c = '#' then go true rest
      else c :: rest

/-- Add the case variants of a set, if letter case does not count. -/
def close (flags : Flags) (chars : CharSet) : CharSet :=
  if !flags.anyCase then chars
  else if flags.unicode then CaseFolding.close chars
  else CaseFolding.closeAscii chars

/-- The complement of a set, if that is asked for. It holds characters beyond ASCII. -/
def negate? (flags : Flags) (negated : Bool) (chars : CharSet) : Option CharSet :=
  if !negated then some chars
  else if flags.unicode then some chars.compl
  else none

/-- What a character stands for. -/
def char (flags : Flags) (c : Char) : Term :=
  if !flags.anyCase then .literal [c]
  else if flags.unicode then .ofSet (.ofList (CaseFolding.variants c))
  else .ofSet (CaseFolding.closeAscii (.single c))

/-- What the dot stands for. -/
def dot? (flags : Flags) : Option Term :=
  if !flags.unicode then none
  else if flags.dotAll then some (.set .all)
  else if flags.crlf then some (.set (CharSet.ofList ['\n', '\r']).compl)
  else some (.set (CharSet.single '\n').compl)

/-- What the circumflex stands for. -/
def lineStart (flags : Flags) : Look :=
  if flags.multiLine then .lineStart flags.crlf else .textStart

/-- What the dollar sign stands for. -/
def lineStop (flags : Flags) : Look :=
  if flags.multiLine then .lineStop flags.crlf else .textStop

end Flags

end Retrace.Pattern
