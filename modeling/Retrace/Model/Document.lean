import Retrace.Markup.Reader
import Retrace.Markup.Reference
import Retrace.Model.Basic
import Retrace.Text.Blank

/-!
# Models in documents

`Model.read` reads a model from a marked-up document. Elements with the name of a kind become
elements of the model; all other elements are left out together with what they contain. The model
remembers the document and where in it the texts stand.

A fault of the document comes with the bytes it concerns.
-/

namespace Retrace

/-- What is wrong with a document. -/
inductive DocumentFault where
  /-- The markup cannot be read on. -/
  | malformed
  /-- An element may not stand where it does. -/
  | misfit (error : StructureError)
  /-- The root element is not a model. -/
  | wrongRoot (name : Text)
  /-- The end tag of an element has another name. -/
  | closedBy (name close : Text)
  /-- There is an element inside one that holds a text. -/
  | elementInText (kind : NodeKind)
  /-- There is a text inside an element that holds elements. -/
  | textAmongElements (kind : NodeKind)
  /-- There is a bad character reference. -/
  | reference (error : Markup.ReferenceError)
  deriving DecidableEq, Repr

namespace DocumentFault

/-- The wording of a fault. -/
def message : DocumentFault → String
  | malformed => "malformed model document"
  | misfit error => error.message
  | wrongRoot name => s!"the root element must be <nta>, found <{String.ofList name}>"
  | closedBy name close => s!"<{String.ofList name}> is closed by </{String.ofList close}>"
  | elementInText kind => s!"<{kind}> holds text, not elements"
  | textAmongElements kind => s!"unexpected text inside <{kind}>"
  | reference error => error.message

/-- What could be done about the fault. -/
def help? : DocumentFault → Option String
  | closedBy name _ => some s!"close the element with </{String.ofList name}>"
  | _ => none

end DocumentFault

/-- A fault of a document and its place. -/
structure DocumentError where
  /-- What is wrong. -/
  fault : DocumentFault
  /-- The bytes of the document concerned. -/
  span : Span
  deriving DecidableEq, Repr

namespace Model

open Markup

/-- Resolve the references in a raw text that begins at `offset`. -/
def readRaw (offset : Nat) (raw : Text) : Except DocumentError Text :=
  (decode offset raw).mapError fun (error, span) => ⟨.reference error, span⟩

/-- Set the attributes of an element from its tag; the first of them begins at `offset`. -/
def readAttributes (id : NodeId) : (offset : Nat) → List Attribute → Model →
    Except DocumentError Model
  | _, [], model => .ok model
  | offset, first :: later, model =>
    match readRaw (offset + Text.size first.front) first.value with
    | .error error => .error error
    | .ok value =>
      let next := offset + Text.size first.text
      readAttributes id next later (model.setAttribute id first.name value)

/-- Read the text of an element that holds a text; its content begins at `offset`. -/
def readText (kind : NodeKind) : (offset : Nat) → Content → Except DocumentError Text
  | _, .nil => .ok []
  | offset, .chars raw next =>
    match readRaw offset raw with
    | .error error => .error error
    | .ok piece => (readText kind (offset + Text.size raw) next).map fun later => piece ++ later
  | offset, .comment body next => readText kind (offset + Text.size (commentText body)) next
  | offset, .empty tag _ =>
    .error ⟨.elementInText kind, ⟨offset, offset + Text.size tag.emptyText⟩⟩
  | offset, .element tag inner close _ =>
    .error ⟨.elementInText kind,
      ⟨offset, offset + Text.size (Root.element tag inner close).text⟩⟩

/-- Give an element its text, and remember where it stands. -/
def putText (model : Model) (id : NodeId) (span : Span) (selfClosing : Bool) (text : Text) :
    Model :=
  model.update id fun node =>
    { node with text := some text, slot := some ⟨span, selfClosing, text⟩ }

/-- Check that the end tag of an element, which begins at `offset`, has the name of the element. -/
def checkClose (tag : Tag) (close : EndTag) (offset : Nat) : Except DocumentError Unit :=
  if close.name = tag.name then .ok ()
  else .error ⟨.closedBy tag.name close.name, ⟨offset, offset + Text.size close.text⟩⟩

/-- Add the element that a tag at `offset` starts, with its attributes; `span` is all of the
element. -/
def readStart (parent : NodeId) (kind : NodeKind) (tag : Tag) (span : Span) (model : Model) :
    Except DocumentError (NodeId × Model) := do
  let (id, model) ← (model.addChild parent kind).mapError fun error => ⟨.misfit error, span⟩
  let model ← readAttributes id (span.start + 1 + Text.size tag.name) tag.attributes model
  return (id, model)

/-- Read the content of the element `parent`, which is of a kind that holds elements; the content
begins at `offset`. -/
def readChildren (parent : NodeId) (parentKind : NodeKind) : (offset : Nat) → Content → Model →
    Except DocumentError Model
  | _, .nil, model => .ok model
  | offset, .chars raw next, model =>
    let stop := offset + Text.size raw
    if Text.isBlankText raw then readChildren parent parentKind stop next model
    else .error ⟨.textAmongElements parentKind, ⟨offset, stop⟩⟩
  | offset, .comment body next, model =>
    readChildren parent parentKind (offset + Text.size (commentText body)) next model
  | offset, .empty tag next, model => do
    let stop := offset + Text.size tag.emptyText
    match NodeKind.ofTag? tag.name with
    | none => readChildren parent parentKind stop next model
    | some kind =>
      let (id, model) ← readStart parent kind tag ⟨offset, stop⟩ model
      let slot : Span := ⟨offset + Text.size tag.front, stop⟩
      let model := if kind.hasText then model.putText id slot true [] else model
      readChildren parent parentKind stop next model
  | offset, .element tag inner close next, model => do
    let innerStart := offset + Text.size tag.startText
    let innerStop := innerStart + Text.size inner.text
    let stop := innerStop + Text.size close.text
    match NodeKind.ofTag? tag.name with
    | none =>
      -- What an unknown element contains is not looked at.
      checkClose tag close innerStop
      readChildren parent parentKind stop next model
    | some kind =>
      let (id, model) ← readStart parent kind tag ⟨offset, stop⟩ model
      checkClose tag close innerStop
      if kind.hasText then
        let text ← readText kind innerStart inner
        let model := model.putText id ⟨innerStart, innerStop⟩ false text
        readChildren parent parentKind stop next model
      else
        let model ← readChildren id kind innerStart inner model
        readChildren parent parentKind stop next model

/-- Read a model from its root element, which begins at `offset`. -/
def readRoot (offset : Nat) (element : Markup.Root) : Except DocumentError Model := do
  let tag := element.tag
  if NodeKind.ofTag? tag.name = some .nta then
    let model ← readAttributes root (offset + 1 + Text.size tag.name) tag.attributes empty
    match element with
    | .empty _ => return model
    | .element tag inner close =>
      let innerStart := offset + Text.size tag.startText
      checkClose tag close (innerStart + Text.size inner.text)
      readChildren root .nta innerStart inner model
  else
    throw ⟨.wrongRoot tag.name, ⟨offset, offset + Text.size element.text⟩⟩

/-- Read a model from a document. -/
def read (text : Text) : Except DocumentError Model :=
  match Document.read text with
  | .error offset => .error ⟨.malformed, .point offset⟩
  | .ok document =>
    (readRoot (Text.size document.prolog) document.root).map fun model =>
      { model with document := some text }

end Model

end Retrace
