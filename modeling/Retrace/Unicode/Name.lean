import Retrace.Unicode.Age
import Retrace.Unicode.Segmentation

/-!
# Names of properties

Properties and their values have a long name and often shorter ones. Names are compared loosely:
letter case, blanks, hyphens, low lines and a leading `is` do not count, and neither does what is
not ASCII. `Name.set?` finds what a single name stands for, `Name.setWith?` what a property with
one of its values stands for.
-/

namespace Retrace.Unicode.Name

/-- What counts in a name. A lone `c` behind `is` keeps it, as that is a name of its own. -/
def loosened (name : Text) : String :=
  match name with
  | first :: second :: rest =>
    if first.toLower = 'i' ∧ second.toLower = 's' then
      if plain rest = ['c'] then "isc" else String.ofList (plain rest)
    else String.ofList (plain name)
  | _ => String.ofList (plain name)
where
  /-- The characters that count, in lower case. -/
  plain (name : Text) : Text :=
    (name.filter fun c => c.toNat < 128 && c ≠ ' ' && c ≠ '-' && c ≠ '_').map Char.toLower

/-- Find a name among entries, which hold a long name and then others, and give the long one. -/
def find? (entries : List String) (name : String) : Option String :=
  entries.findSome? fun entry =>
    match entry.splitOn " " with
    | [] => none
    | long :: others =>
      if loosened long.toList = name ∨ name ∈ others then some long else none

/-- The general categories and their groups. -/
def categories : List String := [
  "Lu uppercaseletter", "Ll lowercaseletter", "Lt titlecaseletter", "Lm modifierletter",
  "Lo otherletter", "Mn nonspacingmark", "Mc spacingmark", "Me enclosingmark",
  "Nd decimalnumber digit", "Nl letternumber", "No othernumber", "Pc connectorpunctuation",
  "Pd dashpunctuation", "Ps openpunctuation", "Pe closepunctuation", "Pi initialpunctuation",
  "Pf finalpunctuation", "Po otherpunctuation", "Sm mathsymbol", "Sc currencysymbol",
  "Sk modifiersymbol", "So othersymbol", "Zs spaceseparator", "Zl lineseparator",
  "Zp paragraphseparator", "Cc control cntrl", "Cf format", "Co privateuse", "Cn unassigned",
  "L letter", "LC casedletter", "M mark combiningmark", "N number", "P punctuation punct",
  "S symbol", "Z separator", "C other", "Any", "Assigned", "ASCII"]

/-- The properties that a character has or has not. -/
def properties : List String := [
  "ASCII_Hex_Digit ahex", "Alphabetic alpha", "Bidi_Control bidic", "Bidi_Mirrored bidim",
  "Case_Ignorable ci", "Cased", "Changes_When_Casefolded cwcf", "Changes_When_Casemapped cwcm",
  "Changes_When_Lowercased cwl", "Changes_When_Titlecased cwt", "Changes_When_Uppercased cwu",
  "Dash", "Default_Ignorable_Code_Point di", "Deprecated dep", "Diacritic dia", "Emoji",
  "Emoji_Component ecomp", "Emoji_Modifier emod", "Emoji_Modifier_Base ebase",
  "Emoji_Presentation epres", "Extended_Pictographic extpict", "Extender ext",
  "Grapheme_Base grbase", "Grapheme_Extend grext", "Grapheme_Link grlink", "Hex_Digit hex",
  "Hyphen", "IDS_Binary_Operator idsb", "IDS_Trinary_Operator idst", "IDS_Unary_Operator idsu",
  "ID_Compat_Math_Continue", "ID_Compat_Math_Start", "ID_Continue idc", "ID_Start ids",
  "Ideographic ideo", "Join_Control joinc", "Logical_Order_Exception loe", "Lowercase lower",
  "Math", "Modifier_Combining_Mark mcm", "Noncharacter_Code_Point nchar",
  "Other_Alphabetic oalpha", "Other_Default_Ignorable_Code_Point odi",
  "Other_Grapheme_Extend ogrext", "Other_ID_Continue oidc", "Other_ID_Start oids",
  "Other_Lowercase olower", "Other_Math omath", "Other_Uppercase oupper", "Pattern_Syntax patsyn",
  "Pattern_White_Space patws", "Prepended_Concatenation_Mark pcm", "Quotation_Mark qmark",
  "Radical", "Regional_Indicator ri", "Sentence_Terminal sterm", "Soft_Dotted sd",
  "Terminal_Punctuation term", "Unified_Ideograph uideo", "Uppercase upper",
  "Variation_Selector vs", "White_Space space wspace", "XID_Continue xidc", "XID_Start xids"]

/-- The scripts. -/
def scripts : List String := [
  "Adlam adlm", "Ahom", "Anatolian_Hieroglyphs hluw", "Arabic arab", "Armenian armn",
  "Avestan avst", "Balinese bali", "Bamum bamu", "Bassa_Vah bass", "Batak batk", "Bengali beng",
  "Bhaiksuki bhks", "Bopomofo bopo", "Brahmi brah", "Braille brai", "Buginese bugi", "Buhid buhd",
  "Canadian_Aboriginal cans", "Carian cari", "Caucasian_Albanian aghb", "Chakma cakm", "Cham",
  "Cherokee cher", "Chorasmian chrs", "Common zyyy", "Coptic copt qaac", "Cuneiform xsux",
  "Cypriot cprt", "Cypro_Minoan cpmn", "Cyrillic cyrl", "Deseret dsrt", "Devanagari deva",
  "Dives_Akuru diak", "Dogra dogr", "Duployan dupl", "Egyptian_Hieroglyphs egyp", "Elbasan elba",
  "Elymaic elym", "Ethiopic ethi", "Garay gara", "Georgian geor", "Glagolitic glag", "Gothic goth",
  "Grantha gran", "Greek grek", "Gujarati gujr", "Gunjala_Gondi gong", "Gurmukhi guru",
  "Gurung_Khema gukh", "Han hani", "Hangul hang", "Hanifi_Rohingya rohg", "Hanunoo hano",
  "Hatran hatr", "Hebrew hebr", "Hiragana hira", "Imperial_Aramaic armi", "Inherited qaai zinh",
  "Inscriptional_Pahlavi phli", "Inscriptional_Parthian prti", "Javanese java", "Kaithi kthi",
  "Kannada knda", "Katakana kana", "Kawi", "Kayah_Li kali", "Kharoshthi khar",
  "Khitan_Small_Script kits", "Khmer khmr", "Khojki khoj", "Khudawadi sind", "Kirat_Rai krai",
  "Lao laoo", "Latin latn", "Lepcha lepc", "Limbu limb", "Linear_A lina", "Linear_B linb", "Lisu",
  "Lycian lyci", "Lydian lydi", "Mahajani mahj", "Makasar maka", "Malayalam mlym", "Mandaic mand",
  "Manichaean mani", "Marchen marc", "Masaram_Gondi gonm", "Medefaidrin medf", "Meetei_Mayek mtei",
  "Mende_Kikakui mend", "Meroitic_Cursive merc", "Meroitic_Hieroglyphs mero", "Miao plrd", "Modi",
  "Mongolian mong", "Mro mroo", "Multani mult", "Myanmar mymr", "Nabataean nbat",
  "Nag_Mundari nagm", "Nandinagari nand", "New_Tai_Lue talu", "Newa", "Nko nkoo", "Nushu nshu",
  "Nyiakeng_Puachue_Hmong hmnp", "Ogham ogam", "Ol_Chiki olck", "Ol_Onal onao",
  "Old_Hungarian hung", "Old_Italic ital", "Old_North_Arabian narb", "Old_Permic perm",
  "Old_Persian xpeo", "Old_Sogdian sogo", "Old_South_Arabian sarb", "Old_Turkic orkh",
  "Old_Uyghur ougr", "Oriya orya", "Osage osge", "Osmanya osma", "Pahawh_Hmong hmng",
  "Palmyrene palm", "Pau_Cin_Hau pauc", "Phags_Pa phag", "Phoenician phnx", "Psalter_Pahlavi phlp",
  "Rejang rjng", "Runic runr", "Samaritan samr", "Saurashtra saur", "Sharada shrd", "Shavian shaw",
  "Siddham sidd", "SignWriting sgnw", "Sinhala sinh", "Sogdian sogd", "Sora_Sompeng sora",
  "Soyombo soyo", "Sundanese sund", "Sunuwar sunu", "Syloti_Nagri sylo", "Syriac syrc",
  "Tagalog tglg", "Tagbanwa tagb", "Tai_Le tale", "Tai_Tham lana", "Tai_Viet tavt", "Takri takr",
  "Tamil taml", "Tangsa tnsa", "Tangut tang", "Telugu telu", "Thaana thaa", "Thai", "Tibetan tibt",
  "Tifinagh tfng", "Tirhuta tirh", "Todhri todr", "Toto", "Tulu_Tigalari tutg", "Ugaritic ugar",
  "Vai vaii", "Vithkuqi vith", "Wancho wcho", "Warang_Citi wara", "Yezidi yezi", "Yi yiii",
  "Zanabazar_Square zanb"]

/-- The classes for user-perceived characters. -/
def graphemeClasses : List String := [
  "CR", "LF", "Control cn", "Extend ex", "L", "LV", "LVT", "Prepend pp", "Regional_Indicator ri",
  "SpacingMark sm", "T", "V", "ZWJ"]

/-- The classes for words. -/
def wordClasses : List String := [
  "ALetter le", "CR", "Double_Quote dq", "Extend", "ExtendNumLet ex", "Format fo",
  "Hebrew_Letter hl", "Katakana ka", "LF", "MidLetter ml", "MidNum mn", "MidNumLet mb",
  "Newline nl", "Numeric nu", "Regional_Indicator ri", "Single_Quote sq", "WSegSpace", "ZWJ"]

/-- The classes for sentences. -/
def sentenceClasses : List String := [
  "ATerm at", "CR", "Close cl", "Extend ex", "Format fo", "LF", "Lower lo", "Numeric nu",
  "OLetter le", "SContinue sc", "STerm st", "Sep se", "Sp", "Upper up"]

/-- The versions, which may be written without a point behind a `v`. -/
def versions : List String :=
  Age.versions.map fun version => version ++ " v" ++ version.replace "." ""

/-- What a name of a property, a general category or a script stands for. -/
def set? (name : Text) : Option CharSet :=
  let name := loosened name
  match find? properties name with
  | some property => some (Property.set property)
  | none =>
    match find? categories name with
    | some category => some (Category.set category)
    | none => (find? scripts name).map Script.set

/-- What a value of a property stands for. -/
def setWith? (property value : Text) : Option CharSet :=
  let value := loosened value
  match loosened property with
  | "generalcategory" | "gc" => (find? categories value).map Category.set
  | "script" | "sc" => (find? scripts value).map Script.set
  | "scriptextensions" | "scx" => (find? scripts value).map Script.extensionSet
  | "age" => (find? versions value).map Age.set
  | "graphemeclusterbreak" | "gcb" => (find? graphemeClasses value).map Segmentation.grapheme
  | "wordbreak" | "wb" => (find? wordClasses value).map Segmentation.word
  | "sentencebreak" | "sb" => (find? sentenceClasses value).map Segmentation.sentence
  | _ => none

end Retrace.Unicode.Name
