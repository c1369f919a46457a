import Retrace.Unicode.Name

/-!
# Classes of characters in patterns

Patterns have letters for the decimal digits, the blanks and the word characters, and names for
some classes of ASCII characters.
-/

namespace Retrace.Pattern.Class

/-- The decimal digits of all scripts. -/
def digit : CharSet := Unicode.Category.set "Nd"

/-- The blanks. -/
def blank : CharSet := Unicode.Property.set "White_Space"

/-- The word characters: what is alphabetic, marks, decimal digits, connecting punctuation and the
two joiners. -/
def word : CharSet :=
  .unions [
    Unicode.Property.alphabetic, Unicode.Category.set "M",
    Unicode.Category.setOf ["Nd", "Pc"], Unicode.Property.set "Join_Control"]

/-- The ASCII letters. -/
def asciiLetter : CharSet := (CharSet.range 'A' 'Z').union (.range 'a' 'z')

/-- The ASCII digits. -/
def asciiDigit : CharSet := .range '0' '9'

/-- The ASCII blanks. -/
def asciiBlank : CharSet := (CharSet.range '\t' '\r').union (.single ' ')

/-- The ASCII word characters. -/
def asciiWord : CharSet := .unions [asciiLetter, asciiDigit, .single '_']

/-- The class that a letter stands for, of all scripts or of ASCII alone. -/
def ofLetter? (unicode : Bool) (letter : Char) : Option CharSet :=
  match letter with
  | 'd' => some (if unicode then digit else asciiDigit)
  | 's' => some (if unicode then blank else asciiBlank)
  | 'w' => some (if unicode then word else asciiWord)
  | _ => none

/-- The class of ASCII characters with a name. -/
def ofName? (name : Text) : Option CharSet :=
  match String.ofList name with
  | "alnum" => some (asciiLetter.union asciiDigit)
  | "alpha" => some asciiLetter
  | "ascii" => some (.range '\x00' '\x7f')
  | "blank" => some ((CharSet.single '\t').union (.single ' '))
  | "cntrl" => some ((CharSet.range '\x00' '\x1f').union (.single '\x7f'))
  | "digit" => some asciiDigit
  | "graph" => some (.range '!' '~')
  | "lower" => some (.range 'a' 'z')
  | "print" => some (.range ' ' '~')
  | "punct" => some (.unions [
      .range '!' '/', .range ':' '@', .range '[' '\x60', .range '\x7b' '~'])
  | "space" => some asciiBlank
  | "upper" => some (.range 'A' 'Z')
  | "word" => some asciiWord
  | "xdigit" => some (.unions [asciiDigit, .range 'A' 'F', .range 'a' 'f'])
  | _ => none

/-- The character is a word character, of any script or of ASCII alone. -/
def isWordChar (unicode : Bool) (c : Char) : Bool :=
  if c.toNat < 128 then c.isAlphanum || c = '_' else unicode && word.contains c

end Retrace.Pattern.Class
