import Retrace.Markup.Reference
import Retrace.Model.Basic

/-!
# Writing models

A model that was read from a document is written by putting its changed texts in the place of the
old ones: `Model.splice` keeps every other byte of the document. A model without a document is
written from scratch, one element to a line: `Model.render`.
-/

namespace Retrace

/-- A piece of text to put in the place of a span. -/
structure Patch where
  /-- What is replaced. -/
  span : Span
  /-- What stands there afterwards. -/
  text : Text
  deriving DecidableEq, Repr

namespace Patch

/-- Worker of `apply`: `passed` is the byte offset of the text that is left. -/
def applyFrom (passed : Nat) : List Patch → Text → Except Span Text
  | [], text => .ok text
  | patch :: later, text =>
    if patch.span.start < passed ∨ passed + Text.size text < patch.span.stop then .error patch.span
    else
      let (kept, rest) := Text.split (patch.span.start - passed) text
      match applyFrom patch.span.stop later (Text.since patch.span.length rest) with
      | .error span => .error span
      | .ok written => .ok (kept ++ (patch.text ++ written))

/-- Put every patch into its place. The patches come in ascending order; one that overlaps the patch
before it or leaves the text is given back. -/
def apply (patches : List Patch) (text : Text) : Except Span Text :=
  applyFrom 0 patches text

end Patch

namespace Node

/-- The patch that brings the text of an element into its document, if the text has changed. -/
def patch? (node : Node) : Option Patch :=
  match node.slot, node.text with
  | some slot, some text =>
    if text = slot.asRead then none
    else if slot.selfClosing then
      some ⟨slot.span, '>' :: Markup.encode text ++ '<' :: '/' :: node.kind.tag.toList ++ ['>']⟩
    else some ⟨slot.span, Markup.encode text⟩
  | _, _ => none

end Node

namespace Model

/-- The patches for all changed texts, in ascending order. -/
def patches (model : Model) : List Patch :=
  (model.nodes.toList.filterMap Node.patch?).mergeSort fun a b => a.span.start ≤ b.span.start

/-- Bring the changed texts into the document; a slot that does not fit is given back. -/
def splice (model : Model) (document : Text) : Except Span Text :=
  Patch.apply model.patches document

/-- Two blanks for each level. -/
def indent (depth : Nat) : Text :=
  List.replicate (2 * depth) ' '

/-- Write an attribute in a tag. -/
def renderAttribute (name value : Text) : Text :=
  ' ' :: name ++ '=' :: '"' :: Markup.encodeValue value ++ ['"']

/-- Write an element and those inside it, at most `bound` levels deep. -/
def renderFrom (model : Model) : (bound : Nat) → (depth : Nat) → NodeId → Text
  | 0, _, _ => []
  | bound + 1, depth, id =>
    let node := model.node id
    let name := node.kind.tag.toList
    let front := indent depth ++ '<' :: name ++
      node.attributes.flatMap fun (name, value) => renderAttribute name value
    match node.text with
    | some text => front ++ '>' :: Markup.encode text ++ '<' :: '/' :: name ++ ['>', '\n']
    | none =>
      if node.children.isEmpty then front ++ ['/', '>', '\n']
      else front ++ '>' :: '\n' :: node.children.flatMap (model.renderFrom bound (depth + 1)) ++
        (indent depth ++ '<' :: '/' :: name ++ ['>', '\n'])

/-- Write the model from scratch. -/
def render (model : Model) : Text :=
  model.renderFrom model.size 0 root

/-- Write the model as a document; a slot that does not fit its document is given back. -/
def write (model : Model) : Except Span Text :=
  match model.document with
  | some document => model.splice document
  | none => .ok model.render

end Model

end Retrace
