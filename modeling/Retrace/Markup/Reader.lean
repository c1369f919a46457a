import Retrace.Markup.Token

/-!
# Reading marked-up documents

`Document.read` reads a whole document or tells the byte offset of the place where it cannot be
read on.

The elements that are still open are kept on a stack, so documents may be nested as deeply as they
like. An end tag closes the innermost open element whatever its name; whether the names agree is
for those to say who know the elements.
-/

namespace Retrace.Markup

/-- Read one blank run, comment, processing instruction or document type declaration. -/
def misc? (text : Text) : Option (Text × Text) :=
  match text with
  | '<' :: '!' :: '-' :: '-' :: rest =>
    (Text.cut? commentEnd rest).map fun (body, behind) => (commentText body, behind)
  | '<' :: '?' :: rest =>
    (Text.cut? ['?', '>'] rest).map fun (body, behind) =>
      ('<' :: '?' :: body ++ ['?', '>'], behind)
  | '<' :: '!' :: rest =>
    if "DOCTYPE".toList.isPrefixOf rest then
      (Text.cut? ['>'] (rest.drop "DOCTYPE".length)).map fun (body, behind) =>
        ('<' :: '!' :: "DOCTYPE".toList ++ body ++ ['>'], behind)
    else none
  | _ =>
    let blanks := text.takeWhile isSpace
    if blanks.isEmpty then none else some (blanks, text.dropWhile isSpace)

/-- Read as much as may stand around the root element, at most `bound` pieces of it. -/
def miscs : (bound : Nat) → Text → Text × Text
  | 0, text => ([], text)
  | bound + 1, text =>
    match misc? text with
    | some (piece, rest) =>
      let (later, rest) := miscs bound rest
      (piece ++ later, rest)
    | none => ([], text)

/-- An element whose end tag has not been read. -/
structure Pending where
  /-- Its start tag. -/
  tag : Tag
  /-- What has been read of its content, the latest piece first. -/
  before : Content
  deriving Repr

/-- Add a piece behind what has been read of an element. -/
def Pending.add (pending : Pending) (piece : Content → Content) : Pending :=
  ⟨pending.tag, piece pending.before⟩

/-- Read on inside the element `innermost`, which stands inside the elements `around`, up to the end
of the outermost of them; at most `bound` tokens. Offsets are counted from the start of the
document. -/
def readContent : (bound : Nat) → (innermost : Pending) → (around : List Pending) → (offset : Nat) →
    Text → Except Nat (Root × Text)
  | 0, _, _, offset, _ => .error offset
  | bound + 1, innermost, around, offset, text =>
    match Token.read text with
    | .error stuck => .error (offset + stuck)
    | .ok (token, rest) =>
      let offset := offset + Text.size token.text
      match token with
      | .chars raw => readContent bound (innermost.add (.chars raw)) around offset rest
      | .comment body => readContent bound (innermost.add (.comment body)) around offset rest
      | .empty tag => readContent bound (innermost.add (.empty tag)) around offset rest
      | .start tag => readContent bound ⟨tag, .nil⟩ (innermost :: around) offset rest
      | .stop close =>
        let inner := innermost.before.reverse
        match around with
        | [] => .ok (.element innermost.tag inner close, rest)
        | next :: outer =>
          readContent bound (next.add (.element innermost.tag inner close)) outer offset rest

/-- Read the root element, which begins at `offset`. -/
def readRoot (offset : Nat) (text : Text) : Except Nat (Root × Text) :=
  match text with
  | '<' :: rest =>
    match Token.readTag rest with
    | .ok (.empty tag, rest) => .ok (.empty tag, rest)
    | .ok (.start tag, rest) =>
      readContent (rest.length + 1) ⟨tag, .nil⟩ [] (offset + Text.size tag.startText) rest
    | .ok _ => .error offset
    | .error stuck => .error (offset + stuck)
  | _ => .error offset

/-- Read a document, or tell where it cannot be read on. -/
def Document.read (text : Text) : Except Nat Document :=
  let (prolog, rest) := miscs text.length text
  match readRoot (Text.size prolog) rest with
  | .error offset => .error offset
  | .ok (root, rest) =>
    let (epilog, rest) := miscs rest.length rest
    let document : Document := ⟨prolog, root, epilog⟩
    if rest.isEmpty then .ok document else .error (Text.size document.text)

end Retrace.Markup
