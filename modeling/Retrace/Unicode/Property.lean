import Retrace.Unicode.CaseFolding
import Retrace.Unicode.Category
import Retrace.Unicode.Property.Table

/-!
# Properties of characters

Properties that a character has or has not. Most of them are kept in a table; the others follow
from general categories, from properties of the table and from letter case.
-/

namespace Retrace.Unicode.Property

/-- The lowercase letters and what counts as such. -/
def lowercase : CharSet :=
  (Category.set "Ll").union (table.set "Other_Lowercase")

/-- The uppercase letters and what counts as such. -/
def uppercase : CharSet :=
  (Category.set "Lu").union (table.set "Other_Uppercase")

/-- The letters and the numbers made of letters, and what counts as such. -/
def alphabetic : CharSet :=
  (Category.setOf (Category.letters ++ ["Nl"])).union (table.set "Other_Alphabetic")

/-- The marks that extend the character before them. -/
def graphemeExtend : CharSet :=
  (Category.setOf ["Mn", "Me"]).union (table.set "Other_Grapheme_Extend")

/-- The characters with a fixed meaning in patterns. -/
def pattern : CharSet :=
  (table.set "Pattern_Syntax").union (table.set "Pattern_White_Space")

/-- The characters that identifiers start with. -/
def idStart : CharSet :=
  ((Category.setOf (Category.letters ++ ["Nl"])).union (table.set "Other_ID_Start")).diff pattern

/-- The characters that identifiers consist of. -/
def idContinue : CharSet :=
  (CharSet.unions [
    idStart, Category.setOf ["Mn", "Mc", "Nd", "Pc"], table.set "Other_ID_Continue"]).diff pattern

/-- The letters whose compatibility forms start with something that starts no identifier. -/
def unstableContinue : CharSet :=
  Table.chars "37A 309B-309C FC5E-FC63 FDFA-FDFB FE70-FE7E/2"

/-- The letters whose compatibility forms are no part of an identifier. -/
def unstableStart : CharSet :=
  unstableContinue.union (Table.chars "E33 EB3 FF9E-FF9F")

/-- The characters that are not shown where they are not supported. -/
def defaultIgnorable : CharSet :=
  (CharSet.unions [
    table.set "Other_Default_Ignorable_Code_Point", Category.set "Cf",
    table.set "Variation_Selector"]).diff
    (.unions [
      table.set "White_Space", Table.chars "FFF9-FFFB 13430-1343F",
      table.set "Prepended_Concatenation_Mark"])

/-- The marks of punctuation that may stand inside a word. -/
def insideWord : CharSet :=
  Table.chars "27 2E 3A B7 387 55F 5F4 2018-2019 2024 2027 FE13 FE52 FE55 FF07 FF0E FF1A"

/-- The characters whose uppercase form differs. -/
def changesWhenUppercased : CharSet :=
  ((lowercase.union (Category.set "Lt")).inter CaseFolding.cased).union
    ((table.set "Special_Casing").diff (.single '\u0130'))

/-- The characters whose titlecase form differs. -/
def changesWhenTitlecased : CharSet :=
  (changesWhenUppercased.diff ((Category.set "Lt").union (Table.chars "10D0-10FF"))).union
    (Table.chars "1C4 1C7 1CA 1F1")

/-- The characters whose folded form differs. -/
def changesWhenCasefolded : CharSet :=
  (CaseFolding.folding.diff (Table.chars "1FBE 1FD3 1FE3")).union (Table.chars
    ("DF 130 149 587 1E9A 1F80-1F87 1F90-1F97 1FA0-1FA7 1FB2-1FB4 1FB7 1FC2-1FC4 1FC7 1FF2-1FF4 " ++
    "1FF7 FB00-FB06 FB13-FB17"))

/-- The characters that have a property, by its long name. -/
def set (name : String) : CharSet :=
  match name with
  | "Lowercase" => lowercase
  | "Uppercase" => uppercase
  | "Alphabetic" => alphabetic
  | "Cased" => .unions [lowercase, uppercase, Category.set "Lt"]
  | "Case_Ignorable" => (Category.setOf ["Mn", "Me", "Cf", "Lm", "Sk"]).union insideWord
  | "Changes_When_Lowercased" =>
    ((uppercase.union (Category.set "Lt")).inter CaseFolding.cased).union (.single '\u0130')
  | "Changes_When_Uppercased" => changesWhenUppercased
  | "Changes_When_Titlecased" => changesWhenTitlecased
  | "Changes_When_Casemapped" => CaseFolding.cased.union (table.set "Special_Casing")
  | "Changes_When_Casefolded" => changesWhenCasefolded
  | "Math" => (Category.set "Sm").union (table.set "Other_Math")
  | "Hex_Digit" =>
    (table.set "ASCII_Hex_Digit").union (Table.chars "FF10-FF19 FF21-FF26 FF41-FF46")
  | "Grapheme_Extend" => graphemeExtend
  | "Grapheme_Base" =>
    Category.assigned.diff ((Category.setOf ["Cc", "Cf", "Co", "Zl", "Zp"]).union graphemeExtend)
  | "ID_Start" => idStart
  | "ID_Continue" => idContinue
  | "XID_Start" => idStart.diff unstableStart
  | "XID_Continue" => idContinue.diff unstableContinue
  | "Default_Ignorable_Code_Point" => defaultIgnorable
  | "Noncharacter_Code_Point" =>
    .ofRanges ((0xFDD0, 0xFDEF) ::
      (List.range 17).map fun plane => (0x10000 * plane + 0xFFFE, 0x10000 * plane + 0xFFFF))
  | name => table.set name

end Retrace.Unicode.Property
