import Retrace.Text.Basic

/-!
# Marked-up documents

The subset of XML that model documents use: elements with attributes, character data and comments
inside one root element, and blanks, comments, processing instructions and document type
declarations around it. A `Markup.Document` keeps every character: `Markup.Document.text` gives the
document back exactly as it was read.
-/

namespace Retrace.Markup

/-- A quotation mark around the value of an attribute. -/
inductive Quotation where
  /-- The double quotation mark. -/
  | double
  /-- The apostrophe. -/
  | single
  deriving DecidableEq, Repr

/-- The character of a quotation mark. -/
def Quotation.char : Quotation → Char
  | double => '"'
  | single => '\''

/-- An attribute as it is written in a tag. -/
structure Attribute where
  /-- The blanks before it. -/
  gap : Text
  /-- Its name. -/
  name : Text
  /-- The blanks before the equals sign. -/
  beforeEquals : Text
  /-- The blanks after the equals sign. -/
  afterEquals : Text
  /-- The quotation mark around the value. -/
  quotation : Quotation
  /-- What stands between the quotation marks. -/
  value : Text
  deriving DecidableEq, Repr

namespace Attribute

/-- The attribute up to its value. -/
def front (written : Attribute) : Text :=
  written.gap ++ written.name ++ written.beforeEquals ++
    '=' :: written.afterEquals ++ [written.quotation.char]

/-- The attribute as it is written. -/
def text (written : Attribute) : Text :=
  written.front ++ written.value ++ [written.quotation.char]

end Attribute

/-- A start tag or a tag without content, up to its end. -/
structure Tag where
  /-- The name of the element. -/
  name : Text
  /-- The attributes. -/
  attributes : List Attribute
  /-- The blanks before the end of the tag. -/
  gap : Text
  deriving DecidableEq, Repr

namespace Tag

/-- The tag without its end. -/
def front (tag : Tag) : Text :=
  '<' :: tag.name ++ tag.attributes.flatMap Attribute.text ++ tag.gap

/-- The mark that ends a tag without content. -/
def closingMark : Text := ['/', '>']

/-- The tag as the start of an element. -/
def startText (tag : Tag) : Text :=
  tag.front ++ ['>']

/-- The tag as an element without content. -/
def emptyText (tag : Tag) : Text :=
  tag.front ++ closingMark

end Tag

/-- An end tag. -/
structure EndTag where
  /-- The name of the element. -/
  name : Text
  /-- The blanks before the end of the tag. -/
  gap : Text
  deriving DecidableEq, Repr

/-- The end tag as it is written. -/
def EndTag.text (tag : EndTag) : Text :=
  '<' :: '/' :: tag.name ++ tag.gap ++ ['>']

/-- The end of a comment. -/
def commentEnd : Text := ['-', '-', '>']

/-- A comment as it is written. -/
def commentText (body : Text) : Text :=
  '<' :: '!' :: '-' :: '-' :: body ++ commentEnd

/-- What stands between the tags of an element, piece by piece. -/
inductive Content where
  /-- Nothing. -/
  | nil
  /-- Character data. -/
  | chars (raw : Text) (next : Content)
  /-- A comment. -/
  | comment (body : Text) (next : Content)
  /-- An element written as a single tag. -/
  | empty (tag : Tag) (next : Content)
  /-- An element with a start tag and an end tag. -/
  | element (tag : Tag) (inner : Content) (close : EndTag) (next : Content)
  deriving DecidableEq, Repr

namespace Content

/-- The content as it is written. -/
def text : Content → Text
  | nil => []
  | chars raw next => raw ++ next.text
  | comment body next => commentText body ++ next.text
  | empty tag next => tag.emptyText ++ next.text
  | element tag inner close next =>
    tag.startText ++ (inner.text ++ (close.text ++ next.text))

/-- The pieces in reverse order, before those in `behind`. -/
def reverseOnto : Content → (behind : Content) → Content
  | nil, behind => behind
  | chars raw next, behind => next.reverseOnto (chars raw behind)
  | comment body next, behind => next.reverseOnto (comment body behind)
  | empty tag next, behind => next.reverseOnto (empty tag behind)
  | element tag inner close next, behind => next.reverseOnto (element tag inner close behind)

/-- The pieces in reverse order. -/
def reverse (content : Content) : Content :=
  content.reverseOnto nil

end Content

/-- The element around all others. -/
inductive Root where
  /-- An element written as a single tag. -/
  | empty (tag : Tag)
  /-- An element with a start tag and an end tag. -/
  | element (tag : Tag) (inner : Content) (close : EndTag)
  deriving DecidableEq, Repr

namespace Root

/-- The tag at which the element starts. -/
def tag : Root → Tag
  | empty tag => tag
  | element tag _ _ => tag

/-- The element as it is written. -/
def text : Root → Text
  | empty tag => tag.emptyText
  | element tag inner close => tag.startText ++ (inner.text ++ close.text)

end Root

/-- A document. -/
structure Document where
  /-- What stands before the root element. -/
  prolog : Text
  /-- The root element. -/
  root : Root
  /-- What stands behind the root element. -/
  epilog : Text
  deriving DecidableEq, Repr

/-- The document as it is written. -/
def Document.text (document : Document) : Text :=
  document.prolog ++ (document.root.text ++ document.epilog)

end Retrace.Markup
