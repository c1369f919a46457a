import Retrace.Model.Path
import Retrace.Revision.Basic

/-!
# Models

A model is a tree of elements. The elements are numbered in the order in which they were added, the
root first, and refer to each other by number. Elements are only ever added, as the last child of
another element; attributes and texts can be changed.

* `Model.addChild` refuses an element whose kind may not stand where it is put.
* `Model.setText` refuses to give a text to an element whose kind carries none.
* `Model.resolve?` finds the element that a path names.
-/

namespace Retrace

/-- The number of an element in its model. -/
abbrev NodeId := Nat

/-- Where the text of an element stands in the document it was read from. -/
structure Slot where
  /-- What stands between the tags, or the closing slash of an element without content. -/
  span : Span
  /-- The element is written as a single tag without content. -/
  selfClosing : Bool
  /-- The text that was read. -/
  asRead : Text
  deriving DecidableEq, Repr

/-- An element of a model. -/
structure Node where
  /-- The kind of the element. -/
  kind : NodeKind
  /-- The element around it; the root has none. -/
  parent : Option NodeId := none
  /-- The elements inside it, in document order. -/
  children : List NodeId := []
  /-- Names and values of its attributes, in the order in which they were first set. -/
  attributes : List (Text × Text) := []
  /-- Its text, if its kind carries one. -/
  text : Option Text := none
  /-- Where the text stands in the document, if it was read from one. -/
  slot : Option Slot := none
  deriving DecidableEq, Repr

namespace Node

/-- A new element of a kind. -/
def ofKind (kind : NodeKind) (parent : Option NodeId) : Node :=
  { kind, parent, text := if kind.hasText then some [] else none }

/-- The value of an attribute. -/
def attribute? (node : Node) (name : Text) : Option Text :=
  node.attributes.lookup name

/-- What the expression of a label means. -/
def labelKind? (node : Node) : Option LabelKind :=
  if node.kind = .label then (node.attribute? "kind".toList).map LabelKind.ofName else none

/-- Put a value in place of the one an attribute has, or add the attribute at the end. -/
def putAttribute (name value : Text) : List (Text × Text) → List (Text × Text)
  | [] => [(name, value)]
  | (key, old) :: later =>
    if key = name then (key, value) :: later else (key, old) :: putAttribute name value later

/-- Set an attribute. -/
def setAttribute (node : Node) (name value : Text) : Node :=
  { node with attributes := putAttribute name value node.attributes }

end Node

/-- Why an element cannot be added. -/
inductive StructureError where
  /-- Elements of this kind do not stand inside elements of the parent's kind. -/
  | misplaced (kind parent : NodeKind)
  /-- There is such an element already, and only one may stand there. -/
  | repeated (kind parent : NodeKind)
  deriving DecidableEq, Repr

namespace StructureError

/-- The wording of a refusal. -/
def message : StructureError → String
  | misplaced kind parent => s!"<{kind}> cannot appear inside <{parent}>"
  | repeated kind parent => s!"<{kind}> appears more than once inside <{parent}>"

end StructureError

/-- A tree of model elements. -/
structure Model where
  /-- The elements by number. -/
  nodes : Array Node
  /-- The document the model was read from. -/
  document : Option Text := none
  deriving DecidableEq, Repr

namespace Model

/-- The model that holds nothing but its root. -/
def empty : Model :=
  { nodes := #[.ofKind .nta none] }

/-- The number of the root. -/
def root : NodeId := 0

/-- Number of elements. -/
def size (model : Model) : Nat :=
  model.nodes.size

/-- An element; a number that is not in use stands for an empty root. -/
def node (model : Model) (id : NodeId) : Node :=
  model.nodes.getD id (.ofKind .nta none)

/-- The kind of an element. -/
def kind (model : Model) (id : NodeId) : NodeKind :=
  (model.node id).kind

/-- The text of an element. -/
def text? (model : Model) (id : NodeId) : Option Text :=
  (model.node id).text

/-- Change an element. -/
def update (model : Model) (id : NodeId) (change : Node → Node) : Model :=
  { model with nodes := model.nodes.modify id change }

/-- The children of one kind, in document order. -/
def childrenOfKind (model : Model) (parent : NodeId) (kind : NodeKind) : List NodeId :=
  (model.node parent).children.filter fun child => model.kind child = kind

/-- The children in the order in which they are visited: by kind, then in document order. -/
def orderedChildren (model : Model) (parent : NodeId) : List NodeId :=
  (model.kind parent).childKinds.flatMap (model.childrenOfKind parent)

/-- Say why no element of a kind can be added to a parent, if so. -/
def refusal? (model : Model) (parent : NodeId) (kind : NodeKind) : Option StructureError :=
  let parentKind := model.kind parent
  if kind ∉ parentKind.childKinds then some (.misplaced kind parentKind)
  else if !kind.repeats && !(model.childrenOfKind parent kind).isEmpty then
    some (.repeated kind parentKind)
  else none

/-- Add an element that is not refused. -/
def insert (model : Model) (parent : NodeId) (kind : NodeKind) : Model :=
  let added := model.update parent fun node =>
    { node with children := node.children ++ [model.size] }
  { added with nodes := added.nodes.push (.ofKind kind parent) }

/-- Add an element of a kind as the last child of a parent. -/
def addChild (model : Model) (parent : NodeId) (kind : NodeKind) :
    Except StructureError (NodeId × Model) :=
  match model.refusal? parent kind with
  | some error => .error error
  | none => .ok (model.size, model.insert parent kind)

/-- Set an attribute of an element. -/
def setAttribute (model : Model) (id : NodeId) (name value : Text) : Model :=
  model.update id fun node => node.setAttribute name value

/-- Replace the text of an element. -/
def setText (model : Model) (id : NodeId) (text : Text) : Except EditError Model :=
  if (model.kind id).hasText then .ok (model.update id fun node => { node with text := some text })
  else .error (.textless (model.kind id).tag)

/-- The same tree without a document. -/
def detach (model : Model) : Model :=
  { nodes := model.nodes.map fun node => { node with slot := none } }

/-- Go down from an element along the segments of a path. -/
def resolveFrom (model : Model) (id : NodeId) : List Segment → Option NodeId
  | [] => some id
  | segment :: later =>
    match segment.index.getD 1 with
    | 0 => none
    | index + 1 =>
      match (model.childrenOfKind id segment.kind)[index]? with
      | some child => model.resolveFrom child later
      | none => none

/-- The element that a path names. -/
def resolve? (model : Model) (path : Path) : Option NodeId :=
  match path.segments with
  | [] => none
  | first :: later => if first.kind = .nta then model.resolveFrom root later else none

end Model

end Retrace
