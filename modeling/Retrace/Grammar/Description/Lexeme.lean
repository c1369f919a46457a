import Retrace.Text.Span
import Retrace.Text.Basic

/-!
# Words of a grammar description

A grammar description is split into names, quoted texts, patterns between slashes and punctuation
marks. Blanks and comments, which run from two slashes to the end of the line, separate words and
are dropped. Splitting never fails: what is no word becomes one of its own, so that whoever reads
the words can say where the first unexpected one stands.
-/

namespace Retrace.Description

/-- A word of a grammar description. -/
inductive Lexeme where
  /-- A name. -/
  | name (name : Text)
  /-- A quoted text, without its quotation marks and escapes. -/
  | literal (text : Text)
  /-- A pattern, without its slashes. -/
  | pattern (text : Text)
  /-- A slash that opens a pattern without an end; `bare` if nothing at all follows. -/
  | openPattern (bare : Bool)
  /-- Any other character. -/
  | mark (c : Char)
  /-- The end of the description. -/
  | stop
  deriving DecidableEq, Repr

/-- A word and where it stands. -/
structure Placed where
  /-- The word. -/
  lexeme : Lexeme
  /-- Where it stands. -/
  span : Span
  deriving DecidableEq, Repr

/-- A character that separates words. -/
def isSeparator (c : Char) : Bool :=
  c = ' ' || c = '\t' || c = '\r' || c = '\n'

/-- The first character of a name. -/
def startsName (c : Char) : Bool :=
  c.isAlpha || c = '_'

/-- A later character of a name. -/
def continuesName (c : Char) : Bool :=
  c.isAlphanum || c = '_'

/-- How many characters stand in front of an unescaped `delimiter`, after the `passed` ones. A
backslash protects the character behind it; one at the end of the text stands for itself. -/
def extent? (delimiter : Char) (passed : Nat) : Text → Option Nat
  | [] => none
  | '\\' :: _ :: rest => extent? delimiter (passed + 2) rest
  | c :: rest => if c = delimiter then some passed else extent? delimiter (passed + 1) rest

/-- Resolve the escapes of a quoted text: line feed, tab, and any other character as itself. -/
def unescape : Text → Text
  | [] => []
  | '\\' :: 'n' :: rest => '\n' :: unescape rest
  | '\\' :: 't' :: rest => '\t' :: unescape rest
  | '\\' :: c :: rest => c :: unescape rest
  | c :: rest => c :: unescape rest

/-- Resolve the escaped slashes of a pattern; other escapes belong to the pattern. -/
def unescapeSlashes : Text → Text
  | [] => []
  | '\\' :: '/' :: rest => '/' :: unescapeSlashes rest
  | c :: rest => c :: unescapeSlashes rest

/-- The word at the head of a text, which starts with `c`, and how many of the characters that
follow belong to it. -/
def word (c : Char) (rest : Text) : Lexeme × Nat :=
  if startsName c then
    let name := rest.takeWhile continuesName
    (.name (c :: name), name.length)
  else if c = '"' then
    match extent? '"' 0 rest with
    | some length => (.literal (unescape (rest.take length)), length + 1)
    | none => (.mark c, 0)
  else if c = '/' then
    match extent? '/' 0 rest with
    | some length => (.pattern (unescapeSlashes (rest.take length)), length + 1)
    | none => (.openPattern rest.isEmpty, 0)
  else (.mark c, 0)

/-- Split a text whose first character has the given offset, in at most `bound` steps. -/
def lexFrom : (bound : Nat) → (offset : Nat) → Text → List Placed
  | _, offset, [] => [⟨.stop, .point offset⟩]
  | 0, offset, _ => [⟨.stop, .point offset⟩]
  | bound + 1, offset, c :: rest =>
    if isSeparator c then lexFrom bound (offset + c.utf8Size) rest
    else if c = '/' ∧ rest.head? = some '/' then
      let comment := rest.takeWhile (· ≠ '\n')
      lexFrom bound (offset + Text.size (c :: comment)) (rest.drop comment.length)
    else
      let (lexeme, length) := word c rest
      let stop := offset + Text.size (c :: rest.take length)
      ⟨lexeme, ⟨offset, stop⟩⟩ :: lexFrom bound stop (rest.drop length)

/-- Split a grammar description into words, the last of which is its end. -/
def lex (text : Text) : List Placed :=
  lexFrom text.length 0 text

end Retrace.Description
