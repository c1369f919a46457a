import Retrace.Text.Basic
import Retrace.Text.Span

/-!
# Revisions of a text

A revision is a text together with the edits made to it so far. Edits are addressed in the text the
revision started from and come in ascending order, so whoever found spans by reading that text can
apply them directly, one after the other.

* `Revision.replace` accepts an edit or says why it is refused; a refused edit changes nothing.
* `Revision.edits` records, for every accepted edit, where it stood before and where its text
  stands now.
-/

namespace Retrace

/-- What becomes of positions strictly inside an inserted text when they are traced back. -/
inductive Inside where
  /-- The insertion is generated text: such positions stand for nothing. -/
  | discarded
  /-- The insertion only repeats the user's text: such positions stand for the start of what was
  replaced. -/
  | anchored
  deriving DecidableEq, Repr, Inhabited

/-- An accepted edit of a text. -/
structure Edit where
  /-- What was replaced, in the text before all edits. -/
  before : Span
  /-- Where the inserted text stands, in the text after this edit. -/
  after : Span
  /-- The inserted text. -/
  inserted : Text
  /-- How positions inside the inserted text are traced back. -/
  inside : Inside
  deriving DecidableEq, Repr

namespace Edit

/-- The inserted text has the length of what it replaced, so positions inside it correspond one
to one. -/
def keepsLength (edit : Edit) : Bool :=
  edit.before.length = edit.after.length

end Edit

/-- Why an edit is refused. -/
inductive EditError where
  /-- The range is reversed or leaves the text, which has `size` bytes. -/
  | outside (range : Span) (size : Nat)
  /-- An end of the range lies inside a character. -/
  | splitsCharacter (range : Span)
  /-- The range begins before the end of the latest edit. -/
  | overlaps (range previous : Span)
  /-- The element at `path` has no text. -/
  | noText (path : String)
  /-- Elements of the named kind carry no text. -/
  | textless (kind : String)
  deriving DecidableEq, Repr

namespace EditError

/-- The wording of a refusal. -/
def message : EditError → String
  | outside range size => s!"edit range {range} is outside the original text (length {size})"
  | splitsCharacter range => s!"edit range {range} splits a character"
  | overlaps range previous =>
    s!"edit range {range} overlaps or precedes the previous edit {previous}"
  | noText path => s!"{path} has no text to rewrite"
  | textless kind => s!"<{kind}> does not carry text"

end EditError

/-- A text and the edits made to it so far. -/
structure Revision where
  /-- The text before all edits. -/
  base : Text
  /-- The text after all edits. -/
  current : Text
  /-- The accepted edits, in ascending order. -/
  edits : List Edit
  deriving DecidableEq, Repr

namespace Revision

/-- A text without edits. -/
def ofText (text : Text) : Revision :=
  ⟨text, text, []⟩

/-- Some edit has been accepted. -/
def hasEdits (revision : Revision) : Bool :=
  !revision.edits.isEmpty

/-- Say why the next edit cannot be made at `range`, if so. -/
def refusal? (revision : Revision) (range : Span) : Option EditError :=
  if range.stop < range.start ∨ revision.base.size < range.stop then
    some (.outside range revision.base.size)
  else if ¬ revision.base.IsBoundary range.start ∨ ¬ revision.base.IsBoundary range.stop then
    some (.splitsCharacter range)
  else match revision.edits.getLast? with
    | some previous =>
      if range.start < previous.before.stop then some (.overlaps range previous.before) else none
    | none => none

/-- Make an edit that is not refused. All earlier edits lie before it, so it begins as far from the
end of the current text as it does from the end of the text before all edits. -/
def accept (revision : Revision) (range : Span) (inserted : Text) (inside : Inside) : Revision :=
  let start := revision.current.size + range.start - revision.base.size
  { base := revision.base
    current :=
      revision.current.upTo start ++
        (inserted ++ revision.current.since (start + range.length))
    edits :=
      revision.edits ++ [⟨range, ⟨start, start + inserted.size⟩, inserted, inside⟩] }

/-- Replace a range of the text before all edits. -/
def replace (revision : Revision) (range : Span) (inserted : Text) (inside : Inside) :
    Except EditError Revision :=
  match revision.refusal? range with
  | some error => .error error
  | none => .ok (revision.accept range inserted inside)

end Revision

end Retrace
