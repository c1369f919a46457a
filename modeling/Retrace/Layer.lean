import Retrace.Model.Basic
import Retrace.Revision.Retrace

/-!
# Layers of revisions

A layer holds the revisions that one phase made to the texts of a model, by the rendered paths of
the elements. `Layer.commit` brings the revised texts into the model; `Layer.retrace?` moves a
diagnostic about the revised model back to the model before.
-/

namespace Retrace

/-- The revision of the text of one element. -/
structure RevisedText where
  /-- The element. -/
  node : NodeId
  /-- The revision of its text. -/
  revision : Revision
  deriving DecidableEq, Repr

/-- The revisions of the texts of some elements. -/
structure Layer where
  /-- Revisions by rendered path, in ascending order of the paths. -/
  fields : List (String × RevisedText) := []
  deriving DecidableEq, Repr

namespace Layer

/-- Number of elements whose text has a revision. -/
def size (layer : Layer) : Nat :=
  layer.fields.length

/-- The revision of the text of the element at a path. -/
def get? (layer : Layer) (path : String) : Option Revision :=
  (layer.fields.lookup path).map RevisedText.revision

/-- Put an entry in the place of the one with the same path, or where it belongs. -/
def putInto (path : String) (revised : RevisedText) :
    List (String × RevisedText) → List (String × RevisedText)
  | [] => [(path, revised)]
  | (other, old) :: later =>
    if other = path then (path, revised) :: later
    else if path < other then (path, revised) :: (other, old) :: later
    else (other, old) :: putInto path revised later

/-- Set the revision of the text of the element at a path. -/
def put (layer : Layer) (path : String) (revised : RevisedText) : Layer :=
  ⟨putInto path revised layer.fields⟩

/-- Worker of `commit`. -/
def commitAll : List (String × RevisedText) → Model → Except EditError Model
  | [], model => .ok model
  | (_, revised) :: later, model =>
    match model.setText revised.node revised.revision.current with
    | .error error => .error error
    | .ok model => commitAll later model

/-- Bring the revised texts into the model. -/
def commit (layer : Layer) (model : Model) : Except EditError Model :=
  commitAll layer.fields model

/-- Move a diagnostic about the revised model back to the model before. A diagnostic about an
element without a revision stays as it is; one that begins inside generated text is lost. -/
def retrace? (layer : Layer) (diagnostic : Diagnostic) : Option Diagnostic :=
  match layer.get? diagnostic.path with
  | some revision => revision.retraceDiagnostic? diagnostic
  | none => some diagnostic

end Layer

end Retrace
