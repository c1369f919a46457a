import Retrace.Proofs.Model.Reached
import Retrace.Proofs.Phase.Calls

/-!
# What a walk does

The recursive walks and the list of paths, which is made with a stack, agree on the order of the
elements: each of them goes through the trace of the model, step by step. The trace is nested: the
steps in an element are all between those that enter and leave it (`Model.pairwise_nested_trace`).
So when a visitor fails, what has been visited is the part of the trace up to the step at which it
failed, and the elements around that step have been entered and not left.

## Main definitions

* `noting`, `Account`: a visitor that keeps account of what it has seen, and what this account says;
* `Path.IsWithin`: the path of an element inside another one;
* `Model.Nested`: two steps of a walk that are in order;
* `Model.steps`: the steps in an element.

## Main results

* `run_forM_noting_iff`: a visitor goes on to the end, or up to the first event at which it fails;
* `Model.walk_eq_forM_paths`: the plain walk visits the elements of the list of paths;
* `Model.perm_orderedChildren`, `Model.pairwise_orderedChildren`, `Model.filter_orderedChildren`:
  the order of the children;
* `Model.open_of_trace_eq`: at a step, the elements around it have been entered and not left;
* `Model.walks_of_reached`: how the walks through a model agree, and how a visitor stops them.
-/

namespace Retrace

/-! ## Visitors that may fail -/

section Visitors

variable {α ε σ : Type} {act : α → ExceptT ε (StateM σ) Unit} {event : α}
  {events front : List α} {fault : ε} {first middle : σ} {account : Except ε Unit × List α × σ}

/-- A visitor with a state of its own, which also keeps account of the events that it has seen. -/
def noting (act : α → ExceptT ε (StateM σ) Unit) (event : α) :
    ExceptT ε (StateM (List α × σ)) Unit :=
  ExceptT.mk fun (seen, state) =>
    let (result, after) := (act event).run.run state
    (result, seen ++ [event], after)

/-- A visitor fails at none of the events, which lead it from one state to another. -/
inductive Goes (act : α → ExceptT ε (StateM σ) Unit) : List α → (first last : σ) → Prop where
  /-- There is no event. -/
  | nil {state : σ} : Goes act [] state state
  /-- The visitor goes on after an event. -/
  | cons {event : α} {events : List α} {first middle last : σ} :
    (act event).run.run first = (.ok (), middle) → Goes act events middle last →
    Goes act (event :: events) first last

/-- The result of a visitor, the events that it has seen, and the state that it is left in. -/
inductive Account (act : α → ExceptT ε (StateM σ) Unit) (events : List α) (first : σ) :
    Except ε Unit × List α × σ → Prop where
  /-- The visitor has seen all events. -/
  | done {last : σ} : Goes act events first last → Account act events first (.ok (), events, last)
  /-- The visitor has failed at an event, which is the last that it has seen. -/
  | failed {front back : List α} {event : α} {fault : ε} {middle last : σ} :
    events = front ++ event :: back → Goes act front first middle →
    (act event).run.run middle = (.error fault, last) →
    Account act events first (.error fault, front ++ [event], last)

theorem run_noting (noted : List α) : (noting act event).run.run (noted, first) =
    (((act event).run.run first).1, noted ++ [event], ((act event).run.run first).2) :=
  rfl

/-- Behind an event at which the visitor goes on, it sees the others. -/
theorem run_forM_noting_cons_of_ok (later noted : List α)
    (h : (act event).run.run first = (.ok (), middle)) :
    (forM (event :: later) (noting act)).run.run (noted, first) =
      (forM later (noting act)).run.run (noted ++ [event], middle) := by
  rw [List.forM_cons, ExceptT.run_bind, StateT.run_bind, run_noting, h]
  rfl

/-- Behind an event at which the visitor fails, it sees no others. -/
theorem run_forM_noting_cons_of_error (later noted : List α)
    (h : (act event).run.run first = (.error fault, middle)) :
    (forM (event :: later) (noting act)).run.run (noted, first) =
      (.error fault, noted ++ [event], middle) := by
  rw [List.forM_cons, ExceptT.run_bind, StateT.run_bind, run_noting, h]
  rfl

/-- Events at which the visitor goes on are noted, and then the others are seen. -/
theorem Goes.run_forM_noting (h : Goes act front first middle) (later noted : List α) :
    (forM (front ++ later) (noting act)).run.run (noted, first) =
      (forM later (noting act)).run.run (noted ++ front, middle) := by
  induction h generalizing noted with
  | nil => rw [List.nil_append, List.append_nil]
  | cons hevent _ ih =>
    rw [List.cons_append, run_forM_noting_cons_of_ok _ _ hevent, ih, List.append_assoc,
      List.singleton_append]

/-- Either the visitor goes on to the end, or up to an event at which it fails. -/
theorem exists_account (act : α → ExceptT ε (StateM σ) Unit) (events : List α) (first : σ) :
    ∃ account, Account act events first account := by
  induction events generalizing first with
  | nil => exact ⟨_, .done .nil⟩
  | cons event later ih =>
    rcases hevent : (act event).run.run first with ⟨fault | ⟨⟩, middle⟩
    · exact ⟨_, .failed (List.nil_append _).symm .nil hevent⟩
    · obtain ⟨account, haccount⟩ := ih middle
      cases haccount with
      | done hgoes => exact ⟨_, .done (.cons hevent hgoes)⟩
      | failed hevents hgoes hfault =>
        exact ⟨_, .failed (congrArg (event :: ·) hevents) (.cons hevent hgoes) hfault⟩

theorem Account.run_forM_noting (h : Account act events first account) :
    (forM events (noting act)).run.run ([], first) = account := by
  cases h with
  | done hgoes =>
    have hrun := hgoes.run_forM_noting [] []
    rw [List.append_nil, List.nil_append] at hrun
    exact hrun
  | failed hevents hgoes hfault =>
    rw [hevents, hgoes.run_forM_noting, run_forM_noting_cons_of_error _ _ hfault, List.nil_append]

/-- The account of a visitor says that it has gone on to the end, or up to an event at which it has
failed. -/
theorem run_forM_noting_iff :
    (forM events (noting act)).run.run ([], first) = account ↔
      Account act events first account := by
  constructor
  · rintro rfl
    obtain ⟨account, haccount⟩ := exists_account act events first
    rwa [haccount.run_forM_noting]
  · exact Account.run_forM_noting

end Visitors

/-! ## Paths inside each other -/

namespace Path

/-- The path leads to an element at the outer path or inside it. -/
def IsWithin (path outer : Path) : Prop :=
  outer.segments <+: path.segments

theorem IsWithin.trans {path middle outer : Path} (h : path.IsWithin middle)
    (h' : middle.IsWithin outer) : path.IsWithin outer :=
  List.IsPrefix.trans h' h

theorem isWithin_child (path : Path) (kind : NodeKind) (index : Option Nat) :
    (path.child kind index).IsWithin path :=
  List.prefix_append ..

theorem not_isWithin_child (path : Path) (kind : NodeKind) (index : Option Nat) :
    ¬ path.IsWithin (path.child kind index) := by
  intro h
  have hlength := h.length_le
  rw [child, List.length_append, List.length_singleton] at hlength
  exact Nat.not_succ_le_self _ hlength

/-- The elements inside two children are not inside each other. -/
theorem child_eq_of_isWithin {path inner : Path} {kind kind' : NodeKind} {index index' : Option Nat}
    (h : inner.IsWithin (path.child kind index)) (h' : inner.IsWithin (path.child kind' index')) :
    path.child kind index = path.child kind' index' := by
  have hlength : (path.child kind index).segments.length =
      (path.child kind' index').segments.length := by
    simp only [child, List.length_append, List.length_singleton]
  have hle := List.prefix_of_prefix_length_le h h' (Nat.le_of_eq hlength)
  exact congrArg Path.mk (hle.eq_of_length hlength)

end Path

namespace Model

variable {model : Model} {bound : Nat} {id node : NodeId} {path : Path}
  {step : WalkStep} {front back : List WalkStep}

/-! ## Steps inside each other -/

/-- The steps in an element are at paths within its own. -/
theorem isWithin_of_mem_traceFrom (h : step ∈ model.traceFrom bound id path) :
    step.path.IsWithin path := by
  induction bound generalizing id path with
  | zero => cases h
  | succ bound ih =>
    rw [traceFrom] at h
    rcases List.mem_append.1 h with h | h
    · rcases List.mem_cons.1 h with rfl | h
      · exact List.prefix_rfl
      · obtain ⟨⟨child, childPath⟩, hchild, hstep⟩ := List.mem_flatMap.1 h
        obtain ⟨kind, -, index, -, rfl⟩ := mem_childPaths.1 hchild
        exact (ih hstep).trans (Path.isWithin_child ..)
    · obtain rfl := List.mem_singleton.1 h
      exact List.prefix_rfl

/-- The steps in the children of an element are not around it. -/
theorem not_isWithin_of_mem_flatMap (h : step ∈ (model.childPaths id path).flatMap
      fun (child, childPath) => model.traceFrom bound child childPath) :
    ¬ path.IsWithin step.path := by
  obtain ⟨⟨child, childPath⟩, hchild, hstep⟩ := List.mem_flatMap.1 h
  obtain ⟨kind, -, index, -, rfl⟩ := mem_childPaths.1 hchild
  intro hwithin
  exact Path.not_isWithin_child _ _ _ (hwithin.trans (isWithin_of_mem_traceFrom hstep))

/-- No element is inside two children of an element. -/
theorem eq_of_isWithin_childPaths (hmodel : model.WellFormed) (hat : model.At id path)
    {first second : NodeId × Path} (hfirst : first ∈ model.childPaths id path)
    (hsecond : second ∈ model.childPaths id path) {inner : Path} (h : inner.IsWithin first.2)
    (h' : inner.IsWithin second.2) : first.1 = second.1 := by
  obtain ⟨child, childPath⟩ := first
  obtain ⟨other, otherPath⟩ := second
  obtain ⟨kind, -, index, -, rfl⟩ := mem_childPaths.1 hfirst
  obtain ⟨kind', -, index', -, rfl⟩ := mem_childPaths.1 hsecond
  have hat' := hat.child hsecond
  rw [← Path.child_eq_of_isWithin h h'] at hat'
  exact (hat.child hfirst).node_unique hmodel hat'

/-- Of two steps of a walk, the later one is inside no element that the other one leaves, and the
other one is inside no element that the later one enters. -/
def Nested (step later : WalkStep) : Prop :=
  (step.isEnter = false → ¬ later.path.IsWithin step.path) ∧
    (later.isEnter = true → ¬ step.path.IsWithin later.path)

theorem pairwise_nested_traceFrom (hmodel : model.WellFormed) (hat : model.At id path)
    (bound : Nat) : (model.traceFrom bound id path).Pairwise Nested := by
  induction bound generalizing id path with
  | zero => exact .nil
  | succ bound ih =>
    rw [traceFrom, List.pairwise_append, List.pairwise_cons, List.pairwise_flatMap]
    refine ⟨⟨fun later hlater => ⟨fun hleave => ?_, fun _ => ?_⟩,
      fun child hchild => ih (hat.child hchild), ?_⟩, List.pairwise_singleton .., ?_⟩
    · cases hleave
    · exact not_isWithin_of_mem_flatMap hlater
    · -- Steps in different children are at paths within different ones.
      have hpairwise := nodup_orderedChildren hmodel id
      rw [← map_fst_childPaths id path] at hpairwise
      refine (List.pairwise_map.1 hpairwise).imp_of_mem ?_
      intro first second hfirst hsecond hne step hstep later hlater
      have hapart {inner : Path} (h : inner.IsWithin first.2) (h' : inner.IsWithin second.2) :
          False := hne (eq_of_isWithin_childPaths hmodel hat hfirst hsecond h h')
      have hstepPath := isWithin_of_mem_traceFrom hstep
      have hlaterPath := isWithin_of_mem_traceFrom hlater
      exact ⟨fun _ hwithin => hapart (hwithin.trans hstepPath) hlaterPath,
        fun _ hwithin => hapart hstepPath (hwithin.trans hlaterPath)⟩
    · intro step hstep later hlater
      obtain rfl := List.mem_singleton.1 hlater
      constructor
      · intro hleave
        rcases List.mem_cons.1 hstep with rfl | hstep
        · cases hleave
        · exact not_isWithin_of_mem_flatMap hstep
      · intro henter
        cases henter

/-- The steps in an element are all between those that enter and leave it. -/
theorem pairwise_nested_trace (hmodel : model.WellFormed) : model.trace.Pairwise Nested :=
  pairwise_nested_traceFrom hmodel .root _

theorem enter_mem_trace (hmodel : model.WellFormed) (hat : model.At node path) :
    .enter node path ∈ model.trace := by
  have hfilter := filter_trace hmodel hat
  exact List.mem_of_mem_filter (hfilter ▸ List.mem_cons_self)

/-- At a step, every element around it has been entered and not left, and so has the element that it
enters. -/
theorem open_of_trace_eq (hmodel : model.WellFormed) (h : model.trace = front ++ step :: back)
    (hat : model.At node path) (hwithin : step.path.IsWithin path)
    (hopen : path ≠ step.path ∨ step.isEnter = true) :
    .enter node path ∈ front ++ [step] ∧ .leave node path ∉ front ++ [step] := by
  have hpairwise := pairwise_nested_trace hmodel
  rw [h, List.pairwise_append, List.pairwise_cons] at hpairwise
  obtain ⟨-, ⟨hback, -⟩, hfront⟩ := hpairwise
  constructor
  · -- The element is entered at some step, and none ahead of that step is inside it.
    have henter := enter_mem_trace hmodel hat
    rw [h, List.append_cons, List.mem_append] at henter
    refine henter.resolve_right fun henter => ?_
    exact (hback _ henter).2 rfl hwithin
  · intro hleave
    -- Behind the step that leaves it, no step is inside the element.
    rcases List.mem_append.1 hleave with hleave | hleave
    · exact (hfront _ hleave step List.mem_cons_self).1 rfl hwithin
    · obtain rfl := List.mem_singleton.1 hleave
      rcases hopen with hne | henter
      · exact hne rfl
      · cases henter

/-! ## The order of a walk -/

/-- The steps of a walk in an element and those inside it. -/
def steps (model : Model) (id : NodeId) (path : Path) : List WalkStep :=
  model.traceFrom model.size id path

/-- All children are visited. -/
theorem perm_orderedChildren (hmodel : model.WellFormed) (id : NodeId) :
    (model.orderedChildren id).Perm (model.node id).children :=
  (List.perm_ext_iff_of_nodup (nodup_orderedChildren hmodel id) (hmodel.nodup id)).2
    fun _ => mem_orderedChildren hmodel

/-- Children are visited in the order of their kinds. -/
theorem pairwise_orderedChildren (model : Model) (id : NodeId) :
    (model.orderedChildren id).Pairwise fun child later =>
      (model.kind id).childKinds.idxOf (model.kind child) ≤
        (model.kind id).childKinds.idxOf (model.kind later) := by
  have hkinds : ∀ kind ∈ NodeKind.all, kind.childKinds.Pairwise fun child later =>
      kind.childKinds.idxOf child ≤ kind.childKinds.idxOf later := by decide
  rw [orderedChildren, List.pairwise_flatMap]
  constructor
  · intro kind _
    refine List.pairwise_of_forall_mem_list fun child hchild later hlater => Nat.le_of_eq ?_
    rw [(mem_childrenOfKind.1 hchild).2, (mem_childrenOfKind.1 hlater).2]
  · refine (hkinds _ (NodeKind.mem_all _)).imp ?_
    intro kind kind' hle child hchild later hlater
    rwa [(mem_childrenOfKind.1 hchild).2, (mem_childrenOfKind.1 hlater).2]

/-- Children of one kind are visited in document order. -/
theorem filter_orderedChildren (hmodel : model.WellFormed) (id : NodeId) (kind : NodeKind) :
    (model.orderedChildren id).filter (fun child => model.kind child = kind) =
      model.childrenOfKind id kind := by
  rw [orderedChildren, List.filter_flatMap]
  by_cases hkind : kind ∈ (model.kind id).childKinds
  · have hkinds : ∀ kind ∈ NodeKind.all, kind.childKinds.Nodup := by decide
    rw [flatMap_eq_of_nodup (hkinds _ (NodeKind.mem_all _)) hkind, List.filter_eq_self]
    · exact fun child hchild => decide_eq_true (mem_childrenOfKind.1 hchild).2
    · -- No child is of two kinds.
      refine fun other _ hne => List.filter_eq_nil_iff.2 fun child hchild hkind => hne ?_
      exact (mem_childrenOfKind.1 hchild).2.symm.trans (of_decide_eq_true hkind)
  · have hnone (child : NodeId) (hchild : child ∈ (model.node id).children) :
        model.kind child ≠ kind := fun heq => hkind (heq ▸ hmodel.kind_mem hchild)
    have hempty : model.childrenOfKind id kind = [] :=
      List.filter_eq_nil_iff.2 fun child hchild heq => hnone child hchild (of_decide_eq_true heq)
    rw [hempty]
    refine List.flatMap_eq_nil_iff.2 fun other _ => List.filter_eq_nil_iff.2 ?_
    intro child hchild heq
    exact hnone child (mem_childrenOfKind.1 hchild).1 (of_decide_eq_true heq)

variable {m : Type → Type} [Monad m] [LawfulMonad m]

/-- Nothing is done at steps that leave elements. -/
theorem forM_visit_pure (visit : NodeId → Path → m Unit) (steps : List WalkStep) :
    forM steps (WalkStep.visit visit fun _ _ => pure ()) =
      forM (steps.filterMap WalkStep.entered?) fun entry => visit entry.1 entry.2 := by
  induction steps with
  | nil => rfl
  | cons step later ih =>
    cases step with
    | enter node path =>
      have hentered : (.enter node path :: later : List WalkStep).filterMap WalkStep.entered? =
          (node, path) :: later.filterMap WalkStep.entered? := rfl
      rw [hentered, List.forM_cons, List.forM_cons, ih]
      rfl
    | leave node path =>
      rw [List.filterMap_cons_none rfl, List.forM_cons, ← ih]
      exact pure_bind () _

/-- The plain walk visits the elements of the list of paths. -/
theorem walk_eq_forM_paths (hmodel : model.WellFormed) (visit : NodeId → Path → m Unit) :
    model.walk visit = forM model.paths fun entry => visit entry.1 entry.2 := by
  rw [walk, walkScoped_eq_forM_trace, forM_visit_pure, paths_eq_filterMap_trace hmodel]

/-- However a model has been reached, its walks agree: the scoped walk goes through the trace of the
model and the plain walk through the list of paths, which has the elements that the trace enters.
The trace enters an element, has the steps in its children, one child after the other, and leaves
the element; the children are taken by kind in the order that the kind of the element gives, and in
document order where they are of one kind. A visitor that fails has seen the trace, or the list,
up to where it failed, and its fault is that of the walk; the elements around the step at which it
failed have been entered and not left. -/
theorem walks_of_reached (h : Reached model) :
    (∀ (m : Type → Type) [Monad m] [LawfulMonad m] (enter leave : NodeId → Path → m Unit),
      model.walkScoped enter leave = forM model.trace (WalkStep.visit enter leave)) ∧
    (∀ (m : Type → Type) [Monad m] [LawfulMonad m] (visit : NodeId → Path → m Unit),
      model.walk visit = forM model.paths fun entry => visit entry.1 entry.2) ∧
    model.trace.filterMap WalkStep.entered? = model.paths ∧
    (model.trace = model.steps root .root ∧ ∀ id path, id < model.size →
      model.steps id path = .enter id path :: (model.childPaths id path).flatMap
        (fun (child, childPath) => model.steps child childPath) ++ [.leave id path]) ∧
    (∀ id path, (model.childPaths id path).map Prod.fst = model.orderedChildren id ∧
      (model.orderedChildren id).Perm (model.node id).children ∧
      (model.orderedChildren id).Pairwise (fun child later =>
        (model.kind id).childKinds.idxOf (model.kind child) ≤
          (model.kind id).childKinds.idxOf (model.kind later)) ∧
      ∀ kind, (model.orderedChildren id).filter (fun child => model.kind child = kind) =
        (model.node id).children.filter fun child => model.kind child = kind) ∧
    (∀ (ε σ : Type) (act : WalkStep → ExceptT ε (StateM σ) Unit) first account,
      (model.walkScoped (fun id path => noting act (.enter id path))
        fun id path => noting act (.leave id path)).run.run ([], first) = account ↔
          Account act model.trace first account) ∧
    (∀ (ε σ : Type) (act : NodeId × Path → ExceptT ε (StateM σ) Unit) first account,
      (model.walk fun id path => noting act (id, path)).run.run ([], first) = account ↔
        Account act model.paths first account) ∧
    ∀ front step back, model.trace = front ++ step :: back → ∀ node path, model.At node path →
      step.path.IsWithin path → path ≠ step.path ∨ step.isEnter = true →
        .enter node path ∈ front ++ [step] ∧ .leave node path ∉ front ++ [step] := by
  have hmodel := h.wellFormed
  refine ⟨fun m _ _ enter leave => walkScoped_eq_forM_trace model enter leave,
    fun m _ _ visit => walk_eq_forM_paths hmodel visit, (paths_eq_filterMap_trace hmodel).symm,
    ⟨rfl, fun id path hid => traceFrom_size hmodel hid path⟩,
    fun id path => ⟨map_fst_childPaths id path, perm_orderedChildren hmodel id,
      pairwise_orderedChildren model id, filter_orderedChildren hmodel id⟩,
    fun ε σ act first account => ?_, fun ε σ act first account => ?_,
    fun front step back htrace node path hat => open_of_trace_eq hmodel htrace hat⟩
  · have hvisit : WalkStep.visit (fun id path => noting act (.enter id path))
        (fun id path => noting act (.leave id path)) = noting act := by
      funext step
      cases step <;> rfl
    rw [walkScoped_eq_forM_trace, hvisit]
    exact run_forM_noting_iff
  · rw [walk_eq_forM_paths hmodel]
    exact run_forM_noting_iff

/-- Count the steps up to the one that enters an element. -/
def countUpTo (node : NodeId) (step : WalkStep) : ExceptT String (StateM Nat) Unit :=
  if step.isEnter && step.node == node then throw "no" else modify Nat.succ

/-- Counting stops at the name of the first template. By then the template has been entered and not
left. -/
theorem walks_of_reached_named :
    let template := Path.root.child .template (some 1)
    let seen : List WalkStep :=
      [.enter 0 .root, .enter 1 template, .enter 2 (template.child .name none)]
    Reached named ∧
      (named.walkScoped (fun id path => noting (countUpTo 2) (.enter id path))
        fun id path => noting (countUpTo 2) (.leave id path)).run.run ([], 0) =
          (.error "no", seen, 2) ∧
      .enter 1 template ∈ seen ∧ .leave 1 template ∉ seen := by
  intro template seen
  have htrace : named.trace = [.enter 0 .root, .enter 1 template] ++
      .enter 2 (template.child .name none) :: [.leave 2 (template.child .name none),
        .leave 1 template, .enter 3 (Path.root.child .template (some 2)),
        .leave 3 (Path.root.child .template (some 2)), .leave 0 .root] := by
    decide +kernel
  have hat : named.At 1 template := At.root.child (by decide +kernel)
  obtain ⟨-, -, -, -, -, hscoped, -, hopen⟩ := walks_of_reached reached_named
  refine ⟨reached_named, (hscoped String Nat (countUpTo 2) 0 _).2 ?_, ?_⟩
  · exact .failed htrace (.cons rfl (.cons rfl .nil)) rfl
  · exact hopen _ _ _ htrace 1 template hat (Path.isWithin_child ..) (.inr rfl)

end Model

end Retrace
