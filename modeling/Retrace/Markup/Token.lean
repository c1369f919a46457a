import Retrace.Markup.Basic

/-!
# Tokens of marked-up documents

The content of an element is a row of tokens: runs of character data, comments and tags. Each token
is read without looking at what follows it. When there is none, `Token.read` tells how many bytes
into the text the reading got stuck.
-/

namespace Retrace

/-- Cut a text around the first occurrence of `needle`, with the characters in `passed` before it,
the last one first. -/
def Text.cutInto (needle passed : Text) : Text → Option (Text × Text)
  | [] => if needle.isEmpty then some (passed.reverse, []) else none
  | c :: rest =>
    if needle.isPrefixOf (c :: rest) then
      some (passed.reverse, (c :: rest).drop needle.length)
    else cutInto needle (c :: passed) rest

/-- What stands before and behind the first occurrence of `needle`. -/
def Text.cut? (needle text : Text) : Option (Text × Text) :=
  cutInto needle [] text

namespace Markup

/-- A blank of the markup: space, tabulator or line break. -/
def isSpace (c : Char) : Bool :=
  c = ' ' || c = '\t' || c = '\r' || c = '\n'

/-- A character a name may begin with. -/
def isNameStart (c : Char) : Bool :=
  c.isAlpha || c = '_' || c = ':'

/-- A character of a name. -/
def isNamePart (c : Char) : Bool :=
  c.isAlphanum || c = '_' || c = ':' || c = '-' || c = '.'

/-- The text is a name. -/
def isName : Text → Bool
  | [] => false
  | c :: rest => isNameStart c && rest.all isNamePart

/-- Read a name. -/
def name? : Text → Option (Text × Text)
  | [] => none
  | c :: rest =>
    if isNameStart c then some (c :: rest.takeWhile isNamePart, rest.dropWhile isNamePart) else none

/-- A character that may stand in a value between quotation marks. -/
def isValueChar (quotation : Quotation) (c : Char) : Bool :=
  c ≠ quotation.char && c ≠ '<'

/-- Read a value and the quotation mark behind it. -/
def value? (quotation : Quotation) (text : Text) : Option (Text × Text) :=
  match text.dropWhile (isValueChar quotation) with
  | c :: rest =>
    if c = quotation.char then some (text.takeWhile (isValueChar quotation), rest) else none
  | [] => none

/-- Read a value in quotation marks. -/
def quoted? : Text → Option (Quotation × Text × Text)
  | '"' :: rest => (value? .double rest).map fun read => (.double, read)
  | '\'' :: rest => (value? .single rest).map fun read => (.single, read)
  | _ => none

namespace Attribute

/-- Read an attribute with the blanks before it. -/
def read? (text : Text) : Option (Attribute × Text) :=
  let gap := text.takeWhile isSpace
  if gap.isEmpty then none
  else match name? (text.dropWhile isSpace) with
    | none => none
    | some (name, rest) =>
      match rest.dropWhile isSpace with
      | '=' :: behind =>
        match quoted? (behind.dropWhile isSpace) with
        | some (quotation, value, later) =>
          let beforeEquals := rest.takeWhile isSpace
          let afterEquals := behind.takeWhile isSpace
          some (⟨gap, name, beforeEquals, afterEquals, quotation, value⟩, later)
        | none => none
      | _ => none

/-- Read as many attributes as there are, up to `bound`. -/
def readAll : (bound : Nat) → Text → List Attribute × Text
  | 0, text => ([], text)
  | bound + 1, text =>
    match read? text with
    | some (first, rest) =>
      let (later, rest) := readAll bound rest
      (first :: later, rest)
    | none => ([], text)

end Attribute

/-- Read a tag up to its end, with the opening bracket already read. -/
def Tag.read? (text : Text) : Option (Tag × Text) :=
  match name? text with
  | none => none
  | some (name, rest) =>
    let (attributes, rest) := Attribute.readAll rest.length rest
    some (⟨name, attributes, rest.takeWhile isSpace⟩, rest.dropWhile isSpace)

/-- Read an end tag, with its first two characters already read. The number is how far the reading
got if there is none. -/
def EndTag.read (text : Text) : Except Nat (EndTag × Text) :=
  match name? text with
  | none => .error 2
  | some (name, rest) =>
    match rest.dropWhile isSpace with
    | '>' :: behind => .ok (⟨name, rest.takeWhile isSpace⟩, behind)
    | _ => .error 1

/-- A piece of the content of an element. -/
inductive Token where
  /-- Character data. -/
  | chars (raw : Text)
  /-- A comment. -/
  | comment (body : Text)
  /-- An element written as a single tag. -/
  | empty (tag : Tag)
  /-- The start of an element. -/
  | start (tag : Tag)
  /-- The end of the element around it. -/
  | stop (tag : EndTag)
  deriving DecidableEq, Repr

namespace Token

/-- The token as it is written. -/
def text : Token → Text
  | chars raw => raw
  | comment body => commentText body
  | empty tag => tag.emptyText
  | start tag => tag.startText
  | stop tag => tag.text

/-- Read a start tag or a tag without content, with the opening bracket already read. -/
def readTag (text : Text) : Except Nat (Token × Text) :=
  match Tag.read? text with
  | none => .error 1
  | some (tag, '>' :: rest) => .ok (.start tag, rest)
  | some (tag, '/' :: '>' :: rest) => .ok (.empty tag, rest)
  | some (tag, _) => .error (Text.size tag.front)

/-- Read the first token of a text. -/
def read (text : Text) : Except Nat (Token × Text) :=
  match text with
  | [] => .error 0
  | '<' :: '/' :: rest => (EndTag.read rest).map fun (tag, rest) => (.stop tag, rest)
  | '<' :: '!' :: '-' :: '-' :: rest =>
    match Text.cut? commentEnd rest with
    | some (body, behind) => .ok (.comment body, behind)
    | none => .error 1
  | '<' :: rest => readTag rest
  | text => .ok (.chars (text.takeWhile (· ≠ '<')), text.dropWhile (· ≠ '<'))

end Token

end Markup

end Retrace
