import Retrace.CharSet
import Retrace.Text.Digits

/-!
# Tables of characters

Sets of characters are kept in tables of text. A line holds the name of a set and some of its
ranges, in hexadecimal code points: `41` is one code point, `41-5A` a range and `100-12E/2` every
second code point of a range. A set may take several lines.
-/

namespace Retrace.Unicode

/-- Lines with the name of a set and some of its ranges, ascending. -/
abbrev Table := List String

namespace Table

/-- Read a range, as its first and its last code point. -/
def range? (word : String) : Option (Nat × Nat) :=
  match word.splitOn "-" with
  | [single] => (Text.digits? 16 single.toList).map fun code => (code, code)
  | [first, last] =>
    match Text.digits? 16 first.toList, Text.digits? 16 last.toList with
    | some low, some high => some (low, high)
    | _, _ => none
  | _ => none

/-- The code points from `first` to `last` in steps of two. -/
def everySecond (first last : Nat) : List Nat :=
  (List.range ((last - first) / 2 + 1)).map fun i => first + 2 * i

/-- The ranges that a word stands for. -/
def ranges (word : String) : List (Nat × Nat) :=
  match word.splitOn "/" with
  | [range, "2"] =>
    match range? range with
    | some (first, last) => (everySecond first last).map fun code => (code, code)
    | none => []
  | _ => (range? word).toList

/-- The characters of some words, ascending. -/
def ofWords (words : List String) : CharSet :=
  .ofRanges (words.flatMap ranges)

/-- The characters of a line without a name. -/
def chars (line : String) : CharSet :=
  ofWords (line.splitOn " ")

/-- The words of the lines that hold a set with a name. -/
def wordsOf (table : Table) (name : String) : List String :=
  table.flatMap fun line =>
    if line.startsWith (name ++ " ") then (line.splitOn " ").drop 1 else []

/-- The set with a name. -/
def set (table : Table) (name : String) : CharSet :=
  ofWords (table.wordsOf name)

/-- The characters of all sets of a table. -/
def all (table : Table) : CharSet :=
  .unions (table.map fun line => ofWords ((line.splitOn " ").drop 1))

end Table

end Retrace.Unicode
