import Retrace.Unicode.Property

/-!
# Characters of names

Names consist of letters and digits of any script and the low line. What is a letter or a digit is
judged by a later version of the character tables than the one that patterns know.
-/

namespace Retrace.Text

/-- The alphabetic characters. -/
def alphabetics : CharSet :=
  Unicode.Property.alphabetic.union (Unicode.Table.chars
    ("88F C5C CDC A7CE-A7CF A7D2 A7D4 A7F1 10940-10959 10EC5-10EC7 10EFA-10EFB 11B60-11B67 " ++
    "11DB0-11DDB 16EA0-16EB8 16EBB-16ED3 16FF2-16FF6 187F8-187FF 18D09-18D1E 18D80-18DF2 " ++
    "1E6C0-1E6DE 1E6E0-1E6F5 1E6FE-1E6FF 2B73A-2B73F 2CEA2-2CEAD 323B0-33479"))

/-- The characters with a numeric value. -/
def numerics : CharSet :=
  (Unicode.Category.set "N").union (Unicode.Table.chars "11DE0-11DE9 16FF4-16FF6")

/-- An ASCII letter, or any other alphabetic character. -/
def isAlphabetic (c : Char) : Bool :=
  if c.toNat < 128 then c.isAlpha else alphabetics.contains c

/-- An alphabetic character or a character with a numeric value. -/
def isAlphanumeric (c : Char) : Bool :=
  if c.toNat < 128 then c.isAlphanum else alphabetics.contains c || numerics.contains c

/-- An alphanumeric character or the low line: what names are made of. -/
def isNameChar (c : Char) : Bool :=
  isAlphanumeric c || c = '_'

end Retrace.Text
