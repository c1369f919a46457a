import Retrace.Unicode.Property
import Retrace.Unicode.Script

/-!
# Classes of text segmentation

The rules that break a text into user-perceived characters, into words and into sentences sort the
characters into classes. The classes follow from other properties, but for a few characters.
-/

namespace Retrace.Unicode.Segmentation

/-- A single code point, or a few. -/
def codes (codes : List Nat) : CharSet :=
  .ofRanges (codes.map fun code => (code, code))

/-- The precomposed syllables that are written with two letters. -/
def twoLetterSyllables : CharSet :=
  codes ((List.range 399).map fun i => 0xAC00 + 28 * i)

/-- The marks that extend what stands before them, and the modifiers of pictographs. -/
def extending : CharSet :=
  Property.graphemeExtend.union (Property.set "Emoji_Modifier")

/-- The classes for user-perceived characters. -/
def grapheme (name : String) : CharSet :=
  match name with
  | "CR" => .single '\r'
  | "LF" => .single '\n'
  | "ZWJ" => .single '\u200d'
  | "Regional_Indicator" => Property.set "Regional_Indicator"
  | "Extend" => extending
  | "Control" =>
    let unassigned := (Category.set "Cn").inter Property.defaultIgnorable
    ((Category.setOf ["Cc", "Cf", "Zl", "Zp"]).union unassigned).diff (.unions [
      codes [0xA, 0xD, 0x200C, 0x200D], Property.set "Prepended_Concatenation_Mark", extending])
  | "Prepend" => Table.chars
    ("600-605 6DD 70F 890-891 8E2 D4E 110BD 110CD 111C2-111C3 113D1 1193F 11941 11A3A " ++
    "11A84-11A89 11D46 11F02")
  | "SpacingMark" =>
    ((Category.set "Mc").union (codes [0xE33, 0xEB3])).diff (extending.union (Table.chars
      ("102B-102C 1038 1062-1064 1067-106D 1083 1087-108C 108F 109A-109C 1A61 1A63-1A64 AA7B " ++
      "AA7D 11720-11721")))
  | "L" => Table.chars "1100-115F A960-A97C"
  | "V" => Table.chars "1160-11A7 D7B0-D7C6 16D63 16D67-16D6A"
  | "T" => Table.chars "11A8-11FF D7CB-D7FB"
  | "LV" => twoLetterSyllables
  | "LVT" => (Table.chars "AC00-D7A3").diff twoLetterSyllables
  | _ => .none

/-- The marks that count as digits, beside the decimal digits. -/
def numericMarks : CharSet :=
  Table.chars "600-605 66B 6DD 890-891 8E2 19DA 110BD 110CD"

/-- The marks that words and sentences keep with what stands before them. -/
def attached : CharSet :=
  Property.graphemeExtend.union (Category.set "Mc")

/-- The marks of format among the digits. -/
def numericFormat : CharSet :=
  Table.chars "600-605 6DD 890-891 8E2 110BD 110CD"

/-- The letters of scripts whose words are not told apart by blanks. -/
def unspacedLetters : CharSet :=
  .unions [
    Table.chars
      ("1000-102A 103F 1050-1055 105A-105D 1061 1065-1066 106E-1070 1075-1081 108E 1780-17B3 " ++
      "17D7 17DC 1950-196D 1970-1974 1980-19AB 19B0-19C9 1A20-1A54 1AA7 A9E0-A9E4 A9E6-A9EF " ++
      "A9FA-A9FE AA60-AA76 AA7A AA7E-AAAF AAB1 AAB5-AAB6 AAB9-AABD AAC0 AAC2 AADB-AADD " ++
      "11700-1171A 11740-11746"),
    Script.set "Thai", Script.set "Lao", Script.set "Hiragana"]

/-- The classes for words. -/
def word (name : String) : CharSet :=
  let extend := (extending.union attached).diff (.single '\u200d')
  let katakana := (Script.set "Katakana").union (Table.chars "3031-3035 309B-309C 30A0 30FC FF70")
  let hebrew := (Script.set "Hebrew").inter (Category.set "Lo")
  match name with
  | "CR" => .single '\r'
  | "LF" => .single '\n'
  | "Newline" => Table.chars "B-C 85 2028-2029"
  | "ZWJ" => .single '\u200d'
  | "WSegSpace" => Table.chars "20 1680 2000-2006 2008-200A 205F 3000"
  | "Regional_Indicator" => Property.set "Regional_Indicator"
  | "Single_Quote" => .single '\x27'
  | "Double_Quote" => .single '\x22'
  | "MidLetter" => Table.chars "3A B7 387 55F 5F4 2027 FE13 FE55 FF1A"
  | "MidNum" => Table.chars "2C 3B 37E 589 60C-60D 66C 7F8 2044 FE50 FE54 FF0C FF1B"
  | "MidNumLet" => Table.chars "2E 2018-2019 2024 FE52 FF07 FF0E"
  | "ExtendNumLet" => Table.chars "5F 202F 203F-2040 2054 FE33-FE34 FE4D-FE4F FF3F"
  | "Numeric" => (Category.set "Nd").union numericMarks
  | "Katakana" => katakana
  | "Hebrew_Letter" => hebrew
  | "Extend" => extend
  | "Format" =>
    (Category.set "Cf").diff (.unions [
      codes [0x200B, 0x200C, 0x200D], extend, numericFormat, .single '\u070f'])
  | "ALetter" =>
    (Property.alphabetic.diff (.unions [
      Property.set "Ideographic", katakana, hebrew, extend, unspacedLetters])).union (Table.chars
      ("2C2-2C5 2D2-2D7 2DE-2DF 2E5-2EB 2ED 2EF-2FF 55A-55C 55E 58A 5F3 70F A708-A716 A720-A721 " ++
      "A789-A78A AB5B"))
  | _ => .none

/-- The classes for sentences. -/
def sentence (name : String) : CharSet :=
  let extend := attached.union (.single '\u200d')
  let lower := Property.lowercase.diff (extend.union (Table.chars "10D0-10FA 10FD-10FF"))
  let upper := (Property.uppercase.union (Category.set "Lt")).diff
    (Table.chars "1C90-1CBA 1CBD-1CBF")
  let separator := Table.chars "85 2028-2029"
  let period := Table.chars "2E 2024 FE52 FF0E"
  match name with
  | "CR" => .single '\r'
  | "LF" => .single '\n'
  | "Sep" => separator
  | "Sp" => (Property.set "White_Space").diff (separator.union (codes [0xA, 0xD]))
  | "ATerm" => period
  | "STerm" => (Property.set "Sentence_Terminal").diff period
  | "SContinue" => Table.chars
    ("2C-2D 3A-3B 37E 55D 60C-60D 7F8 1802 1808 2013-2014 3001 FE10-FE11 FE13-FE14 FE31-FE32 " ++
    "FE50-FE51 FE54-FE55 FE58 FE63 FF0C-FF0D FF1A-FF1B FF64")
  | "Close" =>
    (((Category.setOf ["Ps", "Pe", "Pi", "Pf"]).union (Property.set "Quotation_Mark")).diff
      (codes [0xFF02, 0xFF07])).union
      (Table.chars "275B-2760 2E00-2E01 2E06-2E08 2E0B 1F676-1F678")
  | "Numeric" => .unions [Category.set "Nd", numericMarks, codes [0x66C]]
  | "Extend" => extend
  | "Format" =>
    (Category.set "Cf").diff (.unions [codes [0x200C, 0x200D], extend, numericFormat])
  | "Lower" => lower
  | "Upper" => upper
  | "OLetter" =>
    (Property.alphabetic.diff (.unions [lower, upper, extend])).union (.single '\u05f3')
  | _ => .none

end Retrace.Unicode.Segmentation
