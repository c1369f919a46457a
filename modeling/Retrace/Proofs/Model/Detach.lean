import Retrace.Layer
import Retrace.Model.Walk
import Retrace.Proofs.Model.Alike

/-!
# Models without their documents

A model remembers the document it was read from and where in it the texts stand. Nothing but writing
the model makes use of that: what is looked up in a model, how it is walked through and which texts
can be set is the same without the document. So two models that are the same tree cannot be told
apart before they are written.

## Main results

* `Model.walkScoped_detach`: a walk takes no notice of the document;
* `Layer.commit_detach`: bringing a layer into a model takes no notice of it either.
-/

namespace Retrace

namespace Model

variable {model : Model}

@[simp] theorem size_detach (model : Model) : model.detach.size = model.size :=
  Array.size_map

/-- The elements of the tree are those of the model without their slots. -/
@[simp] theorem node_detach (model : Model) (id : NodeId) :
    model.detach.node id = (model.node id).bare := by
  simp only [detach, node, Array.getD_eq_getD_getElem?, Array.getElem?_map]
  cases model.nodes[id]? <;> rfl

@[simp] theorem kind_detach (model : Model) (id : NodeId) :
    model.detach.kind id = model.kind id := by
  rw [Model.kind, node_detach]
  rfl

@[simp] theorem text?_detach (model : Model) (id : NodeId) :
    model.detach.text? id = model.text? id := by
  rw [text?, node_detach]
  rfl

@[simp] theorem childrenOfKind_detach (model : Model) (parent : NodeId) (kind : NodeKind) :
    model.detach.childrenOfKind parent kind = model.childrenOfKind parent kind := by
  simp only [childrenOfKind, node_detach, kind_detach]
  rfl

@[simp] theorem childPaths_detach (model : Model) (id : NodeId) (path : Path) :
    model.detach.childPaths id path = model.childPaths id path := by
  simp only [childPaths, kind_detach, childrenOfKind_detach]

/-! ## Walks -/

section Walks

variable {m : Type → Type} [Monad m] {enter leave : NodeId → Path → m Unit}

theorem descend_detach (bound : Nat) (id : NodeId) (path : Path) :
    model.detach.descend enter leave bound id path = model.descend enter leave bound id path := by
  induction bound generalizing id path with
  | zero => rfl
  | succ bound ih =>
    rw [descend, descend, childPaths_detach]
    simp only [ih]

/-- A walk takes no notice of the document. -/
theorem walkScoped_detach :
    model.detach.walkScoped enter leave = model.walkScoped enter leave := by
  rw [walkScoped, walkScoped, size_detach, descend_detach]

end Walks

/-! ## Texts -/

/-- Changing an element and leaving out slots can be done in either order. -/
theorem update_detach {change : Node → Node} (h : ∀ node, change node.bare = (change node).bare)
    (id : NodeId) : model.detach.update id change = (model.update id change).detach := by
  simp only [detach, update]
  congr 1
  apply Array.ext_getElem?
  intro other
  rw [Array.getElem?_map, Array.getElem?_modify, Array.getElem?_modify, Array.getElem?_map]
  split
  · cases model.nodes[other]? with
    | none => rfl
    | some node => exact congrArg some (h node)
  · rfl

theorem setText_detach (id : NodeId) (text : Text) :
    model.detach.setText id text = (model.setText id text).map detach := by
  rw [setText, setText, kind_detach]
  split
  · refine congrArg Except.ok (update_detach ?_ id)
    exact fun _ => rfl
  · rfl

end Model

namespace Layer

theorem commitAll_detach (fields : List (String × RevisedText)) (model : Model) :
    commitAll fields model.detach = (commitAll fields model).map Model.detach := by
  induction fields generalizing model with
  | nil => rfl
  | cons first later ih =>
    obtain ⟨path, revised⟩ := first
    rw [commitAll, commitAll, Model.setText_detach]
    cases model.setText revised.node revised.revision.current with
    | error error => rfl
    | ok edited => exact ih edited

/-- Bringing a layer into a model takes no notice of the document. -/
theorem commit_detach (layer : Layer) (model : Model) :
    layer.commit model.detach = (layer.commit model).map Model.detach :=
  commitAll_detach layer.fields model

end Layer

end Retrace
