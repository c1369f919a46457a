import Retrace.Unicode.Category.Table

/-!
# General categories

Every code point has one general category, such as uppercase letter or decimal number. Categories
have short names of two letters; their groups share the first of them.
-/

namespace Retrace.Unicode.Category

/-- The categories of letters. -/
def letters : List String := ["Lu", "Ll", "Lt", "Lm", "Lo"]

/-- The categories of marks. -/
def marks : List String := ["Mn", "Mc", "Me"]

/-- The categories of numbers. -/
def numbers : List String := ["Nd", "Nl", "No"]

/-- The categories of assigned characters that are neither letters, marks nor numbers. -/
def others : List String := [
  "Pc", "Pd", "Ps", "Pe", "Pi", "Pf", "Po", "Sm", "Sc", "Sk", "So", "Zs", "Zl", "Zp", "Cc", "Cf",
  "Co"]

/-- The characters of some categories. -/
def setOf (names : List String) : CharSet :=
  .unions (names.map table.set)

/-- The characters that have been assigned. -/
def assigned : CharSet :=
  setOf (letters ++ marks ++ numbers ++ others)

/-- The characters of a category or of a group of categories. -/
def set (name : String) : CharSet :=
  match name with
  | "L" => setOf letters
  | "LC" => setOf ["Lu", "Ll", "Lt"]
  | "M" => setOf marks
  | "N" => setOf numbers
  | "P" => setOf ["Pc", "Pd", "Ps", "Pe", "Pi", "Pf", "Po"]
  | "S" => setOf ["Sm", "Sc", "Sk", "So"]
  | "Z" => setOf ["Zs", "Zl", "Zp"]
  | "C" => (setOf ["Cc", "Cf", "Co"]).union assigned.compl
  | "Cn" => assigned.compl
  | "Any" => .all
  | "Assigned" => assigned
  | "ASCII" => .range '\x00' '\x7f'
  | name => table.set name

end Retrace.Unicode.Category
