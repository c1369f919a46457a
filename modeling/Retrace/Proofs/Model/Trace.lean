import Retrace.Proofs.Model.Address
import Retrace.Proofs.Model.Order

/-!
# The steps of a walk

A walk enters and leaves elements. `Model.trace` lists these steps without doing anything, and a
scoped walk is what its visitors do at the steps of the trace, one after the other
(`walkScoped_eq_forM_trace`). Every step is about an element at its path (`at_of_mem_trace`), and an
element is entered once, ahead of all other steps at it (`pairwise_trace`).
-/

namespace Retrace

/-- A step of a walk. -/
inductive WalkStep where
  /-- An element is entered. -/
  | enter (node : NodeId) (path : Path)
  /-- An element is left. -/
  | leave (node : NodeId) (path : Path)
  deriving DecidableEq, Repr

namespace WalkStep

/-- The element. -/
def node : WalkStep → NodeId
  | enter node _ | leave node _ => node

/-- Its path. -/
def path : WalkStep → Path
  | enter _ path | leave _ path => path

/-- The step enters its element. -/
def isEnter : WalkStep → Bool
  | enter _ _ => true
  | leave _ _ => false

/-- Do at a step what is to be done when elements are entered or left. -/
def visit {β : Type} (enter leave : NodeId → Path → β) : WalkStep → β
  | .enter node path => enter node path
  | .leave node path => leave node path

end WalkStep

namespace Model

/-- Worker of `trace`: the steps in an element and those inside it, at most `bound` levels deep. -/
def traceFrom (model : Model) : (bound : Nat) → NodeId → Path → List WalkStep
  | 0, _, _ => []
  | bound + 1, id, path =>
    .enter id path :: ((model.childPaths id path).flatMap fun (child, childPath) =>
      model.traceFrom bound child childPath) ++ [.leave id path]

/-- The steps of a walk through a model. -/
def trace (model : Model) : List WalkStep :=
  model.traceFrom model.size root .root

variable {m : Type → Type} [Monad m]

/-- What is done for some items depends only on what is done for each of them. -/
theorem forM_congr {α : Type} {items : List α} {act act' : α → m Unit}
    (h : ∀ item ∈ items, act item = act' item) : forM items act = forM items act' := by
  induction items with
  | nil => rfl
  | cons item items ih =>
    obtain ⟨hitem, hitems⟩ := List.forall_mem_cons.1 h
    rw [List.forM_cons, List.forM_cons, hitem, ih hitems]

variable [LawfulMonad m]

/-- Doing something for every list among some is doing it for all of them in a row. -/
theorem forM_flatMap {α β : Type} (items : List α) (parts : α → List β)
    (act : β → m Unit) :
    forM (items.flatMap parts) act = forM items fun item => forM (parts item) act := by
  induction items with
  | nil => rfl
  | cons item items ih => rw [List.flatMap_cons, List.forM_append, List.forM_cons, ih]

theorem descend_eq_forM_traceFrom (model : Model) (enter leave : NodeId → Path → m Unit)
    (bound : Nat) (id : NodeId) (path : Path) :
    model.descend enter leave bound id path =
      forM (model.traceFrom bound id path) (WalkStep.visit enter leave) := by
  induction bound generalizing id path with
  | zero => rfl
  | succ bound ih =>
    rw [descend, traceFrom, List.cons_append, List.forM_cons, List.forM_append, forM_flatMap,
      List.forM_eq_forM]
    simp only [ih, List.forM_cons, List.forM_nil, bind_pure_unit, WalkStep.visit]

/-- A walk does what is to be done at every step of the trace. -/
theorem walkScoped_eq_forM_trace (model : Model) (enter leave : NodeId → Path → m Unit) :
    model.walkScoped enter leave = forM model.trace (WalkStep.visit enter leave) :=
  descend_eq_forM_traceFrom ..

theorem at_of_mem_traceFrom {model : Model} {bound : Nat} {id : NodeId} {path : Path}
    (h : model.At id path) {step : WalkStep} (hstep : step ∈ model.traceFrom bound id path) :
    model.At step.node step.path := by
  induction bound generalizing id path with
  | zero => cases hstep
  | succ bound ih =>
    rw [traceFrom] at hstep
    rcases List.mem_append.1 hstep with hstep | hstep
    · rcases List.mem_cons.1 hstep with rfl | hstep
      · exact h
      · obtain ⟨⟨child, childPath⟩, hchild, hstep⟩ := List.mem_flatMap.1 hstep
        exact ih (h.child hchild) hstep
    · obtain rfl := List.mem_singleton.1 hstep
      exact h

/-- A walk visits elements at their paths. -/
theorem at_of_mem_trace {model : Model} {step : WalkStep} (h : step ∈ model.trace) :
    model.At step.node step.path :=
  at_of_mem_traceFrom .root h

/-! ## Every element is entered once -/

section Order

variable {model : Model} {bound : Nat} {id child : NodeId} {path : Path}

theorem map_fst_childPaths (id : NodeId) (path : Path) :
    (model.childPaths id path).map Prod.fst = model.orderedChildren id := by
  rw [childPaths, orderedChildren, List.map_flatMap]
  congr 1
  funext kind
  exact List.ext_getElem (by simp) fun index _ _ => by simp

theorem mem_orderedChildren_of_mem_childPaths {childPath : Path}
    (h : (child, childPath) ∈ model.childPaths id path) : child ∈ model.orderedChildren id := by
  rw [← map_fst_childPaths id path]
  exact List.mem_map_of_mem h

/-- Every child is of a kind that may stand inside its parent, so it is visited. -/
theorem mem_orderedChildren (hmodel : model.WellFormed) :
    child ∈ model.orderedChildren id ↔ child ∈ (model.node id).children := by
  simp only [orderedChildren, List.mem_flatMap, mem_childrenOfKind]
  constructor
  · rintro ⟨kind, -, hchild, -⟩
    exact hchild
  · intro hchild
    exact ⟨_, hmodel.kind_mem hchild, hchild, rfl⟩

theorem nodup_orderedChildren (hmodel : model.WellFormed) (id : NodeId) :
    (model.orderedChildren id).Nodup := by
  have hkinds : ∀ kind ∈ NodeKind.all, kind.childKinds.Nodup := by decide
  refine List.nodup_flatMap.2 ⟨fun kind _ => (hmodel.nodup id).filter _, ?_⟩
  refine (hkinds _ (NodeKind.mem_all _)).imp fun {kind kind'} hne => ?_
  -- A child has one kind only.
  intro child hchild hchild'
  exact hne ((mem_childrenOfKind.1 hchild).2.symm.trans (mem_childrenOfKind.1 hchild').2)

/-- The order of a walk lists the elements of a tree. -/
theorem WellFormed.lists_orderedChildren (hmodel : model.WellFormed) :
    Lists model.orderedChildren model.size where
  lt_of_mem hmem := hmodel.lists.lt_of_mem ((mem_orderedChildren hmodel).1 hmem)
  nodup := nodup_orderedChildren hmodel
  eq_of_mem hmem hmem' := hmodel.lists.eq_of_mem ((mem_orderedChildren hmodel).1 hmem)
    ((mem_orderedChildren hmodel).1 hmem')
  exists_mem hpos hlt := by
    obtain ⟨id, hmem⟩ := hmodel.lists.exists_mem hpos hlt
    exact ⟨id, (mem_orderedChildren hmodel).2 hmem⟩

/-- The steps in an element are about this element and those inside it. -/
theorem node_mem_preorder {step : WalkStep} (h : step ∈ model.traceFrom bound id path) :
    step.node ∈ preorder model.orderedChildren bound id := by
  induction bound generalizing id path with
  | zero => cases h
  | succ bound ih =>
    rw [traceFrom] at h
    rw [preorder]
    rcases List.mem_append.1 h with h | h
    · rcases List.mem_cons.1 h with rfl | h
      · exact List.mem_cons_self
      · obtain ⟨⟨child, childPath⟩, hchild, hstep⟩ := List.mem_flatMap.1 h
        have hmem := mem_orderedChildren_of_mem_childPaths hchild
        exact List.mem_cons_of_mem _ (List.mem_flatMap.2 ⟨child, hmem, ih hstep⟩)
    · obtain rfl := List.mem_singleton.1 h
      exact List.mem_cons_self

/-- In an element, no step is followed by one that enters the same element. -/
theorem pairwise_traceFrom (hmodel : model.WellFormed) (bound : Nat) (id : NodeId) (path : Path) :
    (model.traceFrom bound id path).Pairwise fun step later =>
      later.isEnter = true → step.node ≠ later.node := by
  have hlists := hmodel.lists_orderedChildren
  induction bound generalizing id path with
  | zero => exact .nil
  | succ bound ih =>
    rw [traceFrom, List.pairwise_append, List.pairwise_cons, List.pairwise_flatMap]
    refine ⟨⟨fun later hlater _ hnode => ?_, fun child _ => ih child.1 child.2, ?_⟩,
      List.pairwise_singleton .., fun step _ later hlater henter => ?_⟩
    · -- The element itself is none of those inside it.
      have hnodup := hlists.nodup_preorder (bound + 1) id
      rw [preorder, List.nodup_cons] at hnodup
      obtain ⟨⟨child, childPath⟩, hchild, hstep⟩ := List.mem_flatMap.1 hlater
      have hmem := mem_orderedChildren_of_mem_childPaths hchild
      refine hnodup.1 (List.mem_flatMap.2 ⟨child, hmem, ?_⟩)
      have hinside := node_mem_preorder hstep
      rwa [← hnode] at hinside
    · -- What is inside one child is not inside the next one.
      have hpairwise := hlists.nodup id
      rw [← map_fst_childPaths id path] at hpairwise
      refine (List.pairwise_map.1 hpairwise).imp_of_mem ?_
      intro first second hfirst hsecond hne step hstep later hlater _ hnode
      exact hlists.disjoint_preorder (mem_orderedChildren_of_mem_childPaths hfirst)
        (mem_orderedChildren_of_mem_childPaths hsecond) hne (node_mem_preorder hstep)
        (hnode ▸ node_mem_preorder hlater)
    · obtain rfl := List.mem_singleton.1 hlater
      cases henter

/-- In a walk, no step is followed by one that enters an element at the same path. -/
theorem pairwise_trace (hmodel : model.WellFormed) :
    model.trace.Pairwise fun step later =>
      later.isEnter = true → step.path.render ≠ later.path.render := by
  refine (pairwise_traceFrom hmodel model.size root .root).imp_of_mem ?_
  intro step later hstep hlater hne henter hrender
  exact hne henter
    ((at_of_mem_trace hstep).node_unique_of_render hmodel (at_of_mem_trace hlater) hrender)

end Order

end Model

end Retrace
