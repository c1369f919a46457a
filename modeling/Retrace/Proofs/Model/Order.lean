import Mathlib.Data.List.Nodup
import Mathlib.Logic.Relation
import Retrace.Proofs.Model.WellFormed

/-!
# The order of elements

An element comes before those inside it, and these come one after the other. In which order the
elements directly inside an element are taken is left open: `Model.preorder` goes through a tree in
the order that a function gives. As long as this function lists the elements of a tree, every
element of the tree comes exactly once.

## Main definitions

* `Model.preorder`: an element and those inside it in some order;
* `Model.Lists`: a function lists elements that form a tree.

## Main results

* `Model.Lists.nodup_preorder`: no element comes twice;
* `Model.Lists.mem_preorder`: every element comes.
-/

namespace Retrace.Model

/-- An element and those inside it, at most `bound` levels deep. The elements directly inside an
element are taken in the order in which `next` gives them. -/
def preorder (next : NodeId → List NodeId) : (bound : Nat) → NodeId → List NodeId
  | 0, _ => []
  | bound + 1, id => id :: (next id).flatMap (preorder next bound)

/-- `next` lists the elements directly inside each element of a tree with `size` elements. -/
structure Lists (next : NodeId → List NodeId) (size : Nat) : Prop where
  /-- What is inside an element has a higher number. -/
  lt_of_mem : ∀ {id child : Nat}, child ∈ next id → id < child ∧ child < size
  /-- No element is listed twice. -/
  nodup : ∀ id, (next id).Nodup
  /-- No element is directly inside two elements. -/
  eq_of_mem : ∀ {id other child}, child ∈ next id → child ∈ next other → id = other
  /-- Every element but the root is inside another one. -/
  exists_mem : ∀ {child : Nat}, 0 < child → child < size → ∃ id, child ∈ next id

namespace Lists

variable {next : NodeId → List NodeId} {size bound id other : Nat}

/-- An element is reached by going outwards from those inside it. -/
theorem reflTransGen_of_mem_preorder (h : other ∈ preorder next bound id) :
    Relation.ReflTransGen (fun child parent => child ∈ next parent) other id := by
  induction bound generalizing id with
  | zero => cases h
  | succ bound ih =>
    rw [preorder] at h
    rcases List.mem_cons.1 h with rfl | h
    · exact .refl
    · obtain ⟨child, hchild, hother⟩ := List.mem_flatMap.1 h
      exact (ih hother).tail hchild

/-- Going outwards, numbers become lower. -/
theorem le_of_reflTransGen (hnext : Lists next size)
    (h : Relation.ReflTransGen (fun child parent => child ∈ next parent) other id) :
    id ≤ other := by
  induction h with
  | refl => exact Nat.le_refl _
  | tail _ hmem ih => exact Nat.le_trans (Nat.le_of_lt (hnext.lt_of_mem hmem).1) ih

/-- What is reached from one element directly inside another is not reached from the next one. -/
theorem disjoint_preorder (hnext : Lists next size) {child child' : NodeId}
    (hchild : child ∈ next id) (hchild' : child' ∈ next id) (hne : child ≠ child') :
    List.Disjoint (preorder next bound child) (preorder next bound child') := by
  -- If one of the two were inside the other, so would be the element around both.
  have hout {first second : NodeId} (hfirst : first ∈ next id) (hsecond : second ∈ next id)
      (hne : first ≠ second)
      (hreach : Relation.ReflTransGen (fun child parent => child ∈ next parent) first second) :
      False := by
    rcases hreach.cases_head with heq | ⟨parent, hparent, hrest⟩
    · exact hne heq
    · rw [hnext.eq_of_mem hparent hfirst] at hrest
      have hle := hnext.le_of_reflTransGen hrest
      have hlt := (hnext.lt_of_mem hsecond).1
      omega
  intro other hother hother'
  have hunique : Relator.RightUnique fun child parent => child ∈ next parent :=
    fun _ _ _ hmem hmem' => hnext.eq_of_mem hmem hmem'
  rcases Relation.ReflTransGen.total_of_right_unique hunique
    (reflTransGen_of_mem_preorder hother) (reflTransGen_of_mem_preorder hother') with h | h
  · exact hout hchild hchild' hne h
  · exact hout hchild' hchild hne.symm h

/-- No element comes twice. -/
theorem nodup_preorder (hnext : Lists next size) (bound : Nat) (id : NodeId) :
    (preorder next bound id).Nodup := by
  induction bound generalizing id with
  | zero => exact List.nodup_nil
  | succ bound ih =>
    rw [preorder, List.nodup_cons, List.nodup_flatMap]
    refine ⟨fun hmem => ?_, fun child _ => ih child, ?_⟩
    · obtain ⟨child, hchild, hid⟩ := List.mem_flatMap.1 hmem
      have hle := hnext.le_of_reflTransGen (reflTransGen_of_mem_preorder hid)
      have hlt := (hnext.lt_of_mem hchild).1
      omega
    · exact (hnext.nodup id).imp_of_mem fun hchild hchild' hne =>
        hnext.disjoint_preorder hchild hchild' hne

/-- What is directly inside an element that comes, comes as well. -/
theorem mem_preorder_of_mem (hnext : Lists next size) (hbound : size ≤ bound + id)
    (h : other ∈ preorder next bound id) {child : NodeId} (hchild : child ∈ next other) :
    child ∈ preorder next bound id := by
  induction bound generalizing id with
  | zero => cases h
  | succ bound ih =>
    rw [preorder] at h ⊢
    refine List.mem_cons_of_mem _ (List.mem_flatMap.2 ?_)
    rcases List.mem_cons.1 h with rfl | h
    · -- The bound is not used up yet, because there are elements with higher numbers.
      obtain ⟨hlt, hsize⟩ := hnext.lt_of_mem hchild
      refine ⟨child, hchild, ?_⟩
      cases bound with
      | zero => omega
      | succ bound => exact List.mem_cons_self
    · obtain ⟨middle, hmiddle, hother⟩ := List.mem_flatMap.1 h
      have hlt := (hnext.lt_of_mem hmiddle).1
      exact ⟨middle, hmiddle, ih (by omega) hother⟩

/-- Every element comes. -/
theorem mem_preorder (hnext : Lists next size) (h : id < size) :
    id ∈ preorder next size root := by
  induction id using Nat.strongRecOn with
  | ind id ih =>
    by_cases hroot : id = root
    · obtain ⟨bound, rfl⟩ := Nat.exists_eq_add_one_of_ne_zero (Nat.ne_zero_of_lt h)
      rw [hroot]
      exact List.mem_cons_self
    · obtain ⟨parent, hparent⟩ := hnext.exists_mem (Nat.pos_of_ne_zero hroot) h
      have hlt := (hnext.lt_of_mem hparent).1
      exact hnext.mem_preorder_of_mem (Nat.le_refl _) (ih parent hlt (Nat.lt_trans hlt h)) hparent

/-- Every element comes exactly once. -/
theorem perm_preorder (hnext : Lists next size) (hsize : 0 < size) :
    (preorder next size root).Perm (List.range size) := by
  rw [List.perm_ext_iff_of_nodup (hnext.nodup_preorder size root) List.nodup_range]
  intro id
  rw [List.mem_range]
  refine ⟨fun hmem => ?_, hnext.mem_preorder⟩
  -- Only the root is not directly inside another element.
  rcases (reflTransGen_of_mem_preorder hmem).cases_head with rfl | ⟨parent, hparent, -⟩
  · exact hsize
  · exact (hnext.lt_of_mem hparent).2

end Lists

/-- The elements directly inside others are those of a tree. -/
theorem WellFormed.lists {model : Model} (h : model.WellFormed) :
    Lists (fun id => (model.node id).children) model.size where
  lt_of_mem := h.lt_of_mem
  nodup := h.nodup
  eq_of_mem hmem hmem' :=
    Option.some.inj ((h.parent_of_mem hmem).symm.trans (h.parent_of_mem hmem'))
  exists_mem := h.exists_mem

end Retrace.Model
