import Retrace.Model.Basic

/-!
# Walks through a model

A walk visits every element once, an element before those inside it. Inside an element the children
are taken by kind, in the order of `NodeKind.childKinds`, and children of one kind in document
order. `Model.walkScoped` tells when an element is entered and when it is left again;
`Model.walk` only when it is entered; `Model.paths` lists the elements in the order of the walk.
-/

namespace Retrace.Model

/-- The children of an element with their paths, in the order in which they are visited. -/
def childPaths (model : Model) (id : NodeId) (path : Path) : List (NodeId × Path) :=
  (model.kind id).childKinds.flatMap fun kind =>
    (model.childrenOfKind id kind).mapIdx fun index child =>
      (child, path.child kind (if kind.repeats then some (index + 1) else none))

variable {m : Type → Type} [Monad m]

/-- Worker of `walkScoped`: visit an element and those inside it, at most `bound` levels deep. -/
def descend (model : Model) (enter leave : NodeId → Path → m Unit) :
    (bound : Nat) → NodeId → Path → m Unit
  | 0, _, _ => pure ()
  | bound + 1, id, path => do
    enter id path
    (model.childPaths id path).forM fun (child, childPath) =>
      descend model enter leave bound child childPath
    leave id path

/-- Visit all elements: `enter` is run before the elements inside an element are visited, `leave`
after them. An element has a higher number than the one around it, so the elements inside each
other are at most as many as there are elements. -/
def walkScoped (model : Model) (enter leave : NodeId → Path → m Unit) : m Unit :=
  model.descend enter leave model.size root .root

/-- Visit all elements, an element before those inside it. -/
def walk (model : Model) (visit : NodeId → Path → m Unit) : m Unit :=
  model.walkScoped visit fun _ _ => pure ()

/-- Worker of `paths`: list the elements that are waiting and all those inside them, at most `bound`
elements. -/
def pathsFrom (model : Model) : (bound : Nat) → (waiting : List (NodeId × Path)) →
    List (NodeId × Path)
  | 0, _ => []
  | _, [] => []
  | bound + 1, (id, path) :: later =>
    (id, path) :: model.pathsFrom bound (model.childPaths id path ++ later)

/-- All elements with their paths, in the order of a walk. -/
def paths (model : Model) : List (NodeId × Path) :=
  model.pathsFrom model.size [(root, .root)]

end Retrace.Model
