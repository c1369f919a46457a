import Retrace.Proofs.Model.Paths
import Retrace.Proofs.Phase.Success

/-!
# The calls of a phase

Which handlers a phase calls depends on the tree and on the blocked paths only, not on what the
handlers do. `Phase.calls` lists the calls in order, and running the phase is making them one after
the other (`walkScoped_callAll`). The phase succeeds exactly if every call is answered, and its
diagnostics are those of the answers, in the same order (`run_eq_ok_iff`); otherwise it has made the
calls up to the first that fails (`run_eq_error_iff`).

No call is about an element at a blocked path (`address_ne_of_mem_calls`); about every other element
there are exactly the calls for which handlers are registered (`filter_calls`). If that is a single
call, what becomes of the text of the element is known from this call (`exists_carried_of_run`).

## Main definitions

* `Phase.calls`: the calls that a phase makes;
* `Phase.Course`, `Phase.Answered`: calls that are answered one after the other.
-/

namespace Retrace

namespace WalkStep

@[simp] theorem node_enter (node : NodeId) (path : Path) : (enter node path).node = node :=
  rfl

@[simp] theorem node_leave (node : NodeId) (path : Path) : (leave node path).node = node :=
  rfl

@[simp] theorem path_enter (node : NodeId) (path : Path) : (enter node path).path = path :=
  rfl

@[simp] theorem path_leave (node : NodeId) (path : Path) : (leave node path).path = path :=
  rfl

end WalkStep

namespace Model

variable {model : Model} {bound : Nat} {id node : NodeId} {path : Path}

/-! ## The two steps at an element -/

/-- Where only one item gives something, it alone counts. -/
theorem flatMap_eq_of_nodup {α β : Type} {items : List α} {parts : α → List β} {item : α}
    (hnodup : items.Nodup) (hitem : item ∈ items)
    (hothers : ∀ other ∈ items, other ≠ item → parts other = []) :
    items.flatMap parts = parts item := by
  obtain ⟨front, back, rfl⟩ := List.append_of_mem hitem
  obtain ⟨-, hback, hfront⟩ := List.nodup_append.1 hnodup
  have hnone : front.flatMap parts = [] := List.flatMap_eq_nil_iff.2 fun other hother =>
    hothers other (by simp [hother]) (hfront other hother item List.mem_cons_self)
  have hnone' : back.flatMap parts = [] := List.flatMap_eq_nil_iff.2 fun other hother =>
    hothers other (by simp [hother]) (ne_of_mem_of_not_mem hother (List.nodup_cons.1 hback).1)
  simp [hnone, hnone']

/-- No step is about an element that is not visited. -/
theorem filter_traceFrom_eq_nil (h : node ∉ preorder model.orderedChildren bound id) :
    (model.traceFrom bound id path).filter (·.node = node) = [] := by
  refine List.filter_eq_nil_iff.2 fun step hstep hnode => h ?_
  rw [← of_decide_eq_true hnode]
  exact node_mem_preorder hstep

/-- An element that is visited is entered and left, and that is all. -/
theorem filter_traceFrom (hmodel : model.WellFormed) {step : WalkStep}
    (hstep : step ∈ model.traceFrom bound id path) :
    (model.traceFrom bound id path).filter (·.node = step.node) =
      [.enter step.node step.path, .leave step.node step.path] := by
  have hlists := hmodel.lists_orderedChildren
  induction bound generalizing id path with
  | zero => cases hstep
  | succ bound ih =>
    have hnodup := hlists.nodup_preorder (bound + 1) id
    rw [preorder, List.nodup_cons, List.mem_flatMap] at hnodup
    -- The element itself is none of those inside it.
    have hhere : (model.childPaths id path).flatMap (fun child =>
        (model.traceFrom bound child.1 child.2).filter (·.node = id)) = [] := by
      refine List.flatMap_eq_nil_iff.2 fun child hchild => filter_traceFrom_eq_nil fun hmem => ?_
      exact hnodup.1 ⟨child.1, mem_orderedChildren_of_mem_childPaths hchild, hmem⟩
    rw [traceFrom] at hstep ⊢
    rw [List.filter_append, List.filter_cons, List.filter_flatMap]
    rcases List.mem_append.1 hstep with hstep | hstep
    · rcases List.mem_cons.1 hstep with rfl | hstep
      · rw [WalkStep.node_enter, hhere]
        simp
      · obtain ⟨⟨child, childPath⟩, hchild, hstep⟩ := List.mem_flatMap.1 hstep
        have hinside := node_mem_preorder hstep
        have hmem := mem_orderedChildren_of_mem_childPaths hchild
        have hne : id ≠ step.node := fun heq => hnodup.1 ⟨child, hmem, heq ▸ hinside⟩
        have hchildren : ((model.childPaths id path).map Prod.fst).Nodup := by
          rw [map_fst_childPaths]
          exact hlists.nodup id
        -- The step is made inside one of the children, so the others have no part in it.
        rw [flatMap_eq_of_nodup (.of_map _ hchildren) hchild, ih hstep]
        · simp [hne]
        · intro other hother hdiffers
          refine filter_traceFrom_eq_nil fun hmem' => ?_
          refine hlists.disjoint_preorder (mem_orderedChildren_of_mem_childPaths hother) hmem ?_
            hmem' hinside
          exact fun heq => hdiffers (List.inj_on_of_nodup_map hchildren hother hchild heq)
    · obtain rfl := List.mem_singleton.1 hstep
      rw [WalkStep.node_leave, hhere]
      simp

/-- A walk enters every element and leaves it, and that is all that happens at the element. -/
theorem filter_trace (hmodel : model.WellFormed) (hat : model.At node path) :
    model.trace.filter (·.node = node) = [.enter node path, .leave node path] := by
  obtain ⟨step, hstep, hentered⟩ := List.mem_filterMap.1
    (paths_eq_filterMap_trace hmodel ▸ (mem_paths_iff hmodel).2 hat)
  cases step with
  | enter node' path' =>
    obtain ⟨rfl, rfl⟩ := Prod.mk.inj (Option.some.inj hentered)
    exact filter_traceFrom hmodel hstep
  | leave node' path' => cases hentered

end Model

namespace Phase

variable {σ : Type}

/-! ## Calls -/

/-- A handler and what it is called for. -/
structure Call (σ : Type) where
  /-- What the handler is called for. -/
  visit : Visit
  /-- The handler. -/
  handler : Handler σ

/-- The calls for which handlers are registered, be the path of the element blocked or not. -/
def registered (model : Model) (registrations : List (Registration σ)) (node : NodeId)
    (path : Path) : List (Call σ) :=
  (registrations.filter (·.fits (model.kind node) path)).map fun registration =>
    ⟨⟨model, node, path⟩, registration.handler⟩

/-- The calls that are made at an element: none at a blocked path. -/
def callsAt (model : Model) (blocked : List String) (registrations : List (Registration σ))
    (node : NodeId) (path : Path) : List (Call σ) :=
  if blocked.contains path.render then [] else registered model registrations node path

/-- The calls that a phase makes as long as no handler fails. -/
def calls (phase : Phase σ) (model : Model) (blocked : List String) : List (Call σ) :=
  model.trace.flatMap
    (WalkStep.visit (callsAt model blocked phase.enter) (callsAt model blocked phase.leave))

variable {phase : Phase σ} {model : Model} {blocked : List String}
  {registrations : List (Registration σ)} {node : NodeId} {path : Path}

theorem callAll_eq_forM_callsAt (registrations : List (Registration σ)) (node : NodeId)
    (path : Path) :
    callAll model blocked registrations node path =
      forM (callsAt model blocked registrations node path) fun made =>
        call made.visit made.handler := by
  unfold callAll callsAt registered
  cases hblocked : blocked.contains path.render with
  | true => simp
  | false =>
    cases hfitting : registrations.filter (·.fits (model.kind node) path) with
    | nil => simp
    | cons first later => simp

/-- Make calls one after the other, up to the first that fails. -/
def makeAll (made : List (Call σ)) : Running σ Unit :=
  forM made fun made => call made.visit made.handler

/-- A walk makes the calls one after the other. -/
theorem walkScoped_callAll (phase : Phase σ) (model : Model) (blocked : List String) :
    model.walkScoped (callAll model blocked phase.enter) (callAll model blocked phase.leave) =
      makeAll (phase.calls model blocked) := by
  rw [Model.walkScoped_eq_forM_trace, makeAll, calls, Model.forM_flatMap]
  congr 1
  funext step
  cases step with
  | enter node path => exact callAll_eq_forM_callsAt phase.enter node path
  | leave node path => exact callAll_eq_forM_callsAt phase.leave node path

/-! ## Which calls are made -/

theorem mem_registered {made : Call σ} (h : made ∈ registered model registrations node path) :
    made.visit = ⟨model, node, path⟩ := by
  obtain ⟨registration, -, rfl⟩ := List.mem_map.1 h
  rfl

theorem mem_callsAt {made : Call σ} (h : made ∈ callsAt model blocked registrations node path) :
    made.visit = ⟨model, node, path⟩ ∧ path.render ∉ blocked := by
  unfold callsAt at h
  split at h
  · cases h
  · rename_i hblocked
    exact ⟨mem_registered h, by simpa using hblocked⟩

/-- A call is about an element of the model, at its path, and this path is not blocked. -/
theorem at_of_mem_calls {made : Call σ} (h : made ∈ phase.calls model blocked) :
    made.visit.model = model ∧ model.At made.visit.node made.visit.path ∧
      made.visit.address ∉ blocked := by
  obtain ⟨step, hstep, hmade⟩ := List.mem_flatMap.1 h
  have hat := Model.at_of_mem_trace hstep
  cases step with
  | enter node path =>
    obtain ⟨hvisit, hblocked⟩ := mem_callsAt hmade
    rw [Visit.address, hvisit]
    exact ⟨rfl, hat, hblocked⟩
  | leave node path =>
    obtain ⟨hvisit, hblocked⟩ := mem_callsAt hmade
    rw [Visit.address, hvisit]
    exact ⟨rfl, hat, hblocked⟩

/-- A call is made because a handler is registered for the kind of the element. -/
theorem exists_registration_of_mem_callsAt {made : Call σ}
    (h : made ∈ callsAt model blocked registrations node path) :
    ∃ registration ∈ registrations, registration.handler = made.handler ∧
      registration.kind = model.kind made.visit.node := by
  have hvisit := (mem_callsAt h).1
  unfold callsAt at h
  split at h
  · cases h
  · obtain ⟨registration, hmem, rfl⟩ := List.mem_map.1 h
    obtain ⟨hmem, hfits⟩ := List.mem_filter.1 hmem
    exact ⟨registration, hmem, rfl, Registration.kind_eq_of_fits hfits⟩

/-- So it is in the course of a phase, whether the element is entered or left. -/
theorem exists_registration_of_mem_calls {made : Call σ}
    (h : made ∈ phase.calls model blocked) :
    ∃ registration ∈ phase.enter ++ phase.leave, registration.handler = made.handler ∧
      registration.kind = model.kind made.visit.node := by
  obtain ⟨step, -, hmade⟩ := List.mem_flatMap.1 h
  cases step with
  | enter node path =>
    obtain ⟨registration, hmem, hresult⟩ := exists_registration_of_mem_callsAt hmade
    exact ⟨registration, List.mem_append_left _ hmem, hresult⟩
  | leave node path =>
    obtain ⟨registration, hmem, hresult⟩ := exists_registration_of_mem_callsAt hmade
    exact ⟨registration, List.mem_append_right _ hmem, hresult⟩

/-- No handler is called at a blocked path. -/
theorem address_ne_of_mem_calls {made : Call σ} (h : made ∈ phase.calls model blocked)
    {address : String} (hblocked : address ∈ blocked) : made.visit.address ≠ address :=
  fun heq => (at_of_mem_calls h).2.2 (heq ▸ hblocked)

/-- The calls for an element are those at the steps that enter and leave it. -/
theorem filter_calls_eq_flatMap (phase : Phase σ) (model : Model) (blocked : List String)
    (node : NodeId) : (phase.calls model blocked).filter (·.visit.node = node) =
      (model.trace.filter (·.node = node)).flatMap (WalkStep.visit
        (callsAt model blocked phase.enter) (callsAt model blocked phase.leave)) := by
  have hvisit : ∀ step : WalkStep, ∀ made ∈ WalkStep.visit (callsAt model blocked phase.enter)
      (callsAt model blocked phase.leave) step, made.visit.node = step.node := by
    intro step made hmade
    cases step <;> rw [(mem_callsAt hmade).1] <;> rfl
  rw [calls, List.filter_flatMap]
  induction model.trace with
  | nil => rfl
  | cons step later ih =>
    rw [List.flatMap_cons, ih, List.filter_cons]
    by_cases hnode : step.node = node
    · rw [if_pos (by simpa using hnode), List.flatMap_cons]
      congr 1
      exact List.filter_eq_self.2 fun made hmade => by simp [hvisit step made hmade, hnode]
    · rw [if_neg (by simpa using hnode)]
      rw [List.filter_eq_nil_iff.2 fun made hmade => by simp [hvisit step made hmade, hnode]]
      rfl

/-- At a path that is not blocked, all handlers are called that are registered, first those for
entering and then those for leaving. -/
theorem filter_calls (hmodel : model.WellFormed) (hat : model.At node path)
    (hblocked : path.render ∉ blocked) :
    (phase.calls model blocked).filter (·.visit.node = node) =
      registered model phase.enter node path ++ registered model phase.leave node path := by
  have hopen : ¬blocked.contains path.render = true := by simpa using hblocked
  rw [filter_calls_eq_flatMap, Model.filter_trace hmodel hat]
  simp only [List.flatMap_cons, List.flatMap_nil, List.append_nil, WalkStep.visit, callsAt,
    if_neg hopen]

/-! ## Calls that are answered -/

/-- A call and the diagnostics that the handler gave. -/
structure Reply (σ : Type) where
  /-- The call. -/
  made : Call σ
  /-- The diagnostics of the handler. -/
  diagnostics : List Diagnostic

/-- Calls are made one after the other, and each of them is answered: `Course progress replies
reached` leads from one stage of a phase to a later one. -/
inductive Course : Progress σ → List (Reply σ) → Progress σ → Prop
  | nil {progress : Progress σ} : Course progress [] progress
  | cons {progress reached : Progress σ} {made : Call σ} {diagnostics : List Diagnostic}
      {state : σ} {revision? : Option Revision} {later : List (Reply σ)} :
      carried made.visit made.handler progress = ((.ok diagnostics, state), revision?) →
      Course ⟨state, ⟨layerAfter made.visit progress.outcome.layer revision?,
        progress.outcome.diagnostics ++ diagnostics⟩⟩ later reached →
      Course progress (⟨made, diagnostics⟩ :: later) reached

/-- The diagnostics of a phase are those of the answers, in the same order. -/
theorem Course.diagnostics_eq {progress reached : Progress σ} {replies : List (Reply σ)}
    (h : Course progress replies reached) :
    reached.outcome.diagnostics =
      progress.outcome.diagnostics ++ replies.flatMap Reply.diagnostics := by
  induction h with
  | nil => simp
  | cons _ _ ih => simp [ih, List.append_assoc]

/-- Calls for other elements leave the revision at a path as it is. -/
theorem Course.get?_eq {progress reached : Progress σ} {replies : List (Reply σ)}
    {address : String} (h : Course progress replies reached)
    (hreplies : ∀ reply ∈ replies, reply.made.visit.address ≠ address) :
    reached.outcome.layer.get? address = progress.outcome.layer.get? address := by
  induction h with
  | nil => rfl
  | @cons progress reached made diagnostics state revision? later hcarried hcourse ih =>
    obtain ⟨hmade, hlater⟩ := List.forall_mem_cons.1 hreplies
    rw [ih hlater]
    cases revision? with
    | none => rfl
    | some revision => exact Layer.get?_put_of_ne hmade.symm _

namespace Course

variable {progress middle reached : Progress σ} {replies front back : List (Reply σ)}
  {reply : Reply σ} {address : String}

/-- Calls that are answered after others were answered. -/
theorem append (h : Course progress front middle) (h' : Course middle back reached) :
    Course progress (front ++ back) reached := by
  induction h with
  | nil => exact h'
  | cons hcarried _ ih => exact .cons hcarried (ih h')

/-- A course can be cut in two wherever one likes. -/
theorem of_append (h : Course progress (front ++ back) reached) :
    ∃ middle, Course progress front middle ∧ Course middle back reached := by
  induction front generalizing progress with
  | nil => exact ⟨progress, .nil, h⟩
  | cons first later ih =>
    cases h with
    | cons hcarried h =>
      obtain ⟨middle, hfront, hback⟩ := ih h
      exact ⟨middle, .cons hcarried hfront, hback⟩

/-- Every call of a course was answered when some calls ahead of it had been answered. -/
theorem exists_carried (h : Course progress replies reached) (hreply : reply ∈ replies) :
    ∃ middle state revision?, carried reply.made.visit reply.made.handler middle =
      ((.ok reply.diagnostics, state), revision?) := by
  induction h with
  | nil => cases hreply
  | cons hcarried _ ih =>
    rcases List.mem_cons.1 hreply with rfl | hreply
    · exact ⟨_, _, _, hcarried⟩
    · exact ih hreply

end Course

/-- Calls lead from one stage of a phase to a later one if each of them is answered. -/
def Answered (progress : Progress σ) (calls : List (Call σ)) (reached : Progress σ) : Prop :=
  ∃ replies, Course progress replies reached ∧ replies.map Reply.made = calls

namespace Answered

variable {progress reached : Progress σ} {front back : List (Call σ)} {made : Call σ}

theorem eq_of_nil (h : Answered progress [] reached) : reached = progress := by
  obtain ⟨replies, hcourse, hmade⟩ := h
  obtain rfl := List.map_eq_nil_iff.1 hmade
  cases hcourse
  rfl

theorem of_append (h : Answered progress (front ++ back) reached) :
    ∃ middle, Answered progress front middle ∧ Answered middle back reached := by
  obtain ⟨replies, hcourse, hmade⟩ := h
  obtain ⟨ahead, behind, rfl, hfront, hback⟩ := List.map_eq_append_iff.1 hmade
  obtain ⟨middle, hahead, hbehind⟩ := hcourse.of_append
  exact ⟨middle, ⟨ahead, hahead, hfront⟩, ⟨behind, hbehind, hback⟩⟩

/-- The first call gives the state with which the others are made. -/
theorem of_cons (h : Answered progress (made :: back) reached) :
    ∃ diagnostics middle revision?,
      carried made.visit made.handler progress = ((.ok diagnostics, middle.state), revision?) ∧
      Answered middle back reached := by
  obtain ⟨replies, hcourse, hmade⟩ := h
  obtain ⟨reply, behind, rfl, rfl, hback⟩ := List.map_eq_cons_iff.1 hmade
  cases hcourse with
  | cons hcarried hlater => exact ⟨_, ⟨_, _⟩, _, hcarried, behind, hlater, hback⟩

end Answered

/-! ## Making the calls -/

section Making

variable {first : Call σ} {made : List (Call σ)} {progress reached : Progress σ}
  {replies : List (Reply σ)} {diagnostics : List Diagnostic} {fault : Fault} {state : σ}
  {revision? : Option Revision}

/-- Behind a call that is answered, the others are made with what it has left. -/
theorem run_makeAll_cons_of_ok (later : List (Call σ))
    (h : carried first.visit first.handler progress = ((.ok diagnostics, state), revision?)) :
    (makeAll (first :: later)).run.run progress = (makeAll later).run.run
      ⟨state, ⟨layerAfter first.visit progress.outcome.layer revision?,
        progress.outcome.diagnostics ++ diagnostics⟩⟩ := by
  rw [makeAll, List.forM_cons, ExceptT.run_bind, StateT.run_bind, run_call, h]
  rfl

/-- Behind a call that fails, no others are made. -/
theorem run_makeAll_cons_of_error (later : List (Call σ))
    (h : carried first.visit first.handler progress = ((.error fault, state), revision?)) :
    (makeAll (first :: later)).run.run progress =
      (.error fault, ⟨state, ⟨layerAfter first.visit progress.outcome.layer revision?,
        progress.outcome.diagnostics⟩⟩) := by
  rw [makeAll, List.forM_cons, ExceptT.run_bind, StateT.run_bind, run_call, h]
  rfl

/-- Calls that are answered are made, and then the others. -/
theorem Course.run_makeAll (h : Course progress replies reached) (later : List (Call σ)) :
    (makeAll (replies.map Reply.made ++ later)).run.run progress =
      (makeAll later).run.run reached := by
  induction h with
  | nil => rfl
  | cons hcarried _ ih =>
    rw [← ih, List.map_cons, List.cons_append, run_makeAll_cons_of_ok _ hcarried]

/-- Either all calls are answered, or they are up to one that fails. -/
theorem exists_course_of_makeAll (made : List (Call σ)) (progress : Progress σ) :
    (∃ replies reached, Course progress replies reached ∧ replies.map Reply.made = made) ∨
      ∃ replies middle failing back fault state revision?, Course progress replies middle ∧
        made = replies.map Reply.made ++ failing :: back ∧
        carried failing.visit failing.handler middle = ((.error fault, state), revision?) := by
  induction made generalizing progress with
  | nil => exact .inl ⟨[], progress, .nil, rfl⟩
  | cons first later ih =>
    rcases hcarried : carried first.visit first.handler progress with ⟨⟨result, state⟩, revision?⟩
    cases result with
    | error fault =>
      exact .inr ⟨[], progress, first, later, fault, state, revision?, .nil, rfl, hcarried⟩
    | ok diagnostics =>
      -- The others are made with what this call has left.
      obtain ⟨replies, reached, hcourse, rfl⟩ |
        ⟨replies, middle, failing, back, fault, last, revised?, hcourse, rfl, hfailed⟩ := ih
          ⟨state, ⟨layerAfter first.visit progress.outcome.layer revision?,
            progress.outcome.diagnostics ++ diagnostics⟩⟩
      · exact .inl ⟨⟨first, diagnostics⟩ :: replies, reached, .cons hcarried hcourse, rfl⟩
      · exact .inr ⟨⟨first, diagnostics⟩ :: replies, middle, failing, back, fault, last, revised?,
          .cons hcarried hcourse, rfl, hfailed⟩

end Making

/-! ## Whole phases -/

section Whole

variable {replies : List (Reply σ)} {middle reached : Progress σ} {failing : Call σ}
  {back : List (Call σ)} {outcome : Outcome} {fault : Fault} {state : σ}
  {revision? : Option Revision}

theorem run_of_course (hcourse : Course ⟨phase.start, {}⟩ replies reached)
    (hmade : replies.map Reply.made = phase.calls model blocked) :
    phase.run model blocked = (.ok reached.outcome, reached.state) := by
  have hrun := hcourse.run_makeAll []
  rw [List.append_nil, hmade] at hrun
  have hend : (makeAll ([] : List (Call σ))).run.run reached = (.ok (), reached) := rfl
  unfold run
  simp only [walkScoped_callAll, hrun, hend]

theorem run_of_failing (hcourse : Course ⟨phase.start, {}⟩ replies middle)
    (hmade : phase.calls model blocked = replies.map Reply.made ++ failing :: back)
    (hfailed : carried failing.visit failing.handler middle =
      ((.error fault, state), revision?)) :
    phase.run model blocked = (.error fault, state) := by
  have hrun := hcourse.run_makeAll (failing :: back)
  rw [← hmade, run_makeAll_cons_of_error _ hfailed] at hrun
  unfold run
  simp only [walkScoped_callAll, hrun]

/-- A phase succeeds exactly if all of its calls are answered, and gives the diagnostics of the
answers in the order of the calls. -/
theorem run_eq_ok_iff : phase.run model blocked = (.ok outcome, state) ↔
    ∃ replies, Course ⟨phase.start, {}⟩ replies ⟨state, outcome⟩ ∧
      replies.map Reply.made = phase.calls model blocked ∧
      outcome.diagnostics = replies.flatMap Reply.diagnostics := by
  refine ⟨fun h => ?_, fun ⟨replies, hcourse, hmade, _⟩ => run_of_course hcourse hmade⟩
  obtain ⟨replies, reached, hcourse, hmade⟩ |
    ⟨replies, middle, failing, back, fault, last, revision?, hcourse, hmade, hfailed⟩ :=
      exists_course_of_makeAll (phase.calls model blocked) ⟨phase.start, {}⟩
  · rw [run_of_course hcourse hmade] at h
    obtain ⟨houtcome, rfl⟩ := Prod.mk.inj h
    obtain rfl := Except.ok.inj houtcome
    exact ⟨replies, hcourse, hmade, hcourse.diagnostics_eq⟩
  · rw [run_of_failing hcourse hmade hfailed] at h
    cases (Prod.mk.inj h).1

/-- A phase fails exactly if its calls are answered up to one that fails; the others are not
made. -/
theorem run_eq_error_iff : phase.run model blocked = (.error fault, state) ↔
    ∃ replies middle failing back revision?, Course ⟨phase.start, {}⟩ replies middle ∧
      phase.calls model blocked = replies.map Reply.made ++ failing :: back ∧
      carried failing.visit failing.handler middle = ((.error fault, state), revision?) := by
  refine ⟨fun h => ?_, fun ⟨replies, middle, failing, back, revision?, hcourse, hmade, hfailed⟩ =>
    run_of_failing hcourse hmade hfailed⟩
  obtain ⟨replies, reached, hcourse, hmade⟩ |
    ⟨replies, middle, failing, back, fault', last, revision?, hcourse, hmade, hfailed⟩ :=
      exists_course_of_makeAll (phase.calls model blocked) ⟨phase.start, {}⟩
  · rw [run_of_course hcourse hmade] at h
    cases (Prod.mk.inj h).1
  · rw [run_of_failing hcourse hmade hfailed] at h
    obtain ⟨hfault, rfl⟩ := Prod.mk.inj h
    obtain rfl := Except.error.inj hfault
    exact ⟨replies, middle, failing, back, revision?, hcourse, hmade, hfailed⟩

end Whole

/-- A phase that succeeds has made its calls, and every one of them was answered. -/
theorem exists_course_of_run {outcome : Outcome}
    (h : (phase.run model blocked).1 = .ok outcome) :
    ∃ replies state, Course ⟨phase.start, {}⟩ replies ⟨state, outcome⟩ ∧
      replies.map Reply.made = phase.calls model blocked ∧
      outcome.diagnostics = replies.flatMap Reply.diagnostics := by
  obtain ⟨replies, hreplies⟩ := run_eq_ok_iff.1 (Prod.ext h rfl)
  exact ⟨replies, _, hreplies⟩

/-- A phase makes no edits at a path that is blocked. -/
theorem get?_eq_none_of_run {outcome : Outcome} (h : (phase.run model blocked).1 = .ok outcome)
    {address : String} (hblocked : address ∈ blocked) : outcome.layer.get? address = none := by
  obtain ⟨replies, state, hcourse, hmade, -⟩ := exists_course_of_run h
  rw [hcourse.get?_eq]
  · rfl
  · intro reply hreply
    have hmem : reply.made ∈ phase.calls model blocked := hmade ▸ List.mem_map_of_mem hreply
    exact address_ne_of_mem_calls hmem hblocked

/-- If one handler is registered for an element, one of the calls is about the element, and no other
call is. -/
theorem exists_calls_eq_append (hmodel : model.WellFormed) (hat : model.At node path)
    (hblocked : path.render ∉ blocked) {made : Call σ}
    (hregistered : registered model phase.enter node path ++
      registered model phase.leave node path = [made]) :
    made.visit = ⟨model, node, path⟩ ∧
      ∃ front back, phase.calls model blocked = front ++ made :: back ∧
        ∀ other ∈ front ++ back, other.visit.address ≠ path.render := by
  have hfilter : (phase.calls model blocked).filter (·.visit.node = node) = [made] := by
    rw [filter_calls hmodel hat hblocked, hregistered]
  obtain ⟨front, back, hcalls, hfront, -, hback⟩ := List.filter_eq_cons_iff.1 hfilter
  refine ⟨?_, front, back, hcalls, fun other hother heq => ?_⟩
  · have hmem : made ∈ registered model phase.enter node path ++
        registered model phase.leave node path := by simp [hregistered]
    exact (List.mem_append.1 hmem).elim mem_registered mem_registered
  · have hcall : other ∈ phase.calls model blocked := by
      rw [hcalls]
      simp only [List.mem_append, List.mem_cons] at hother ⊢
      exact hother.imp_right Or.inr
    -- A call at the same path would be about the same element.
    have hsame : other.visit.node = node :=
      (at_of_mem_calls hcall).2.1.node_unique_of_render hmodel hat heq
    rcases List.mem_append.1 hother with hother | hother
    · exact hfront other hother (decide_eq_true hsame)
    · exact List.filter_eq_nil_iff.1 hback other hother (decide_eq_true hsame)

/-- What is known of a call for an element for which one handler is called: no other call is about
the element, so ahead of it no edit was made at its path, and none is made behind it. -/
theorem exists_carried_of_run (hmodel : model.WellFormed) {outcome : Outcome}
    (h : (phase.run model blocked).1 = .ok outcome) (hat : model.At node path)
    (hblocked : path.render ∉ blocked) {made : Call σ}
    (hregistered : registered model phase.enter node path ++
      registered model phase.leave node path = [made]) :
    ∃ replies later progress last diagnostics state,
      phase.calls model blocked =
        replies.map Reply.made ++ made :: later.map Reply.made ∧
      (∀ reply ∈ replies ++ later, reply.made.visit.address ≠ path.render) ∧
      Course ⟨phase.start, {}⟩ (replies ++ ⟨made, diagnostics⟩ :: later) ⟨last, outcome⟩ ∧
      Course ⟨phase.start, {}⟩ replies progress ∧
      progress.outcome.layer.get? path.render = none ∧
      carried made.visit made.handler progress =
        ((.ok diagnostics, state), outcome.layer.get? path.render) := by
  obtain ⟨hvisit, front, back, hcalls, hothers⟩ :=
    exists_calls_eq_append hmodel hat hblocked hregistered
  obtain ⟨replies, state, hcourse, hmade, -⟩ := exists_course_of_run h
  rw [hcalls] at hmade
  obtain ⟨ahead, rest, rfl, rfl, hrest⟩ := List.map_eq_append_iff.1 hmade
  obtain ⟨reply, behind, rfl, rfl, rfl⟩ := List.map_eq_cons_iff.1 hrest
  have hapart : ∀ reply ∈ ahead ++ behind, reply.made.visit.address ≠ path.render :=
    fun reply hreply => hothers _ (by
      rw [← List.map_append]
      exact List.mem_map_of_mem hreply)
  have hwhole := hcourse
  obtain ⟨middle, hfront, hback⟩ := hcourse.of_append
  cases hback with
  | @cons _ _ made diagnostics state' revision? _ hcarried hback =>
    -- Ahead of the call nothing is edited at the path, and behind it nothing else.
    have hnone : middle.outcome.layer.get? path.render = none := by
      rw [hfront.get?_eq fun reply hreply => hapart reply (List.mem_append_left _ hreply)]
      rfl
    refine ⟨ahead, behind, middle, state, diagnostics, state', hcalls, hapart, hwhole, hfront,
      hnone, ?_⟩
    have haddress : made.visit.address = path.render := by rw [hvisit]; rfl
    have hget := hback.get?_eq fun reply hreply => hapart reply (List.mem_append_right _ hreply)
    rw [hcarried, hget]
    cases revision? with
    | none => exact hnone.symm ▸ rfl
    | some revision =>
      show _ = (_, (middle.outcome.layer.put made.visit.address _).get? path.render)
      rw [haddress, Layer.get?_put_self]

/-- What becomes of the text of an element for which one handler is called: the handler finds it as
it is and leaves the one that is brought into the model. -/
theorem exists_carryOut_of_run (hmodel : model.WellFormed) {outcome : Outcome} {after : Model}
    (h : (phase.run model blocked).1 = .ok outcome)
    (hcommit : outcome.layer.commit model = .ok after) (hat : model.At node path)
    (hblocked : path.render ∉ blocked) {handler : Handler σ}
    (hregistered : registered model phase.enter node path ++
      registered model phase.leave node path = [⟨⟨model, node, path⟩, handler⟩])
    {text : Text} (htext : model.text? node = some text) :
    ∃ front back progress diagnostics state revised?,
      phase.calls model blocked = front ++ ⟨⟨model, node, path⟩, handler⟩ :: back ∧
      Answered ⟨phase.start, {}⟩ front progress ∧
      (handler ⟨model, node, path⟩).carryOut ⟨model, node, path⟩ progress.state none =
        ((.ok diagnostics, state), revised?) ∧
      after.text? node = some ((revised?.map Revision.current).getD text) := by
  obtain ⟨replies, later, progress, _, diagnostics, state, hcalls, -, -, hcourse, hnone,
    hcarried⟩ := exists_carried_of_run hmodel h hat hblocked hregistered
  have hfresh : progress.outcome.layer.get? (Visit.address ⟨model, node, path⟩) = none := hnone
  rw [carried, hfresh] at hcarried
  refine ⟨_, _, progress, diagnostics, state, _, hcalls, ⟨replies, hcourse, rfl⟩, hcarried, ?_⟩
  have hdescribes := run_describes hmodel h
  cases hget : outcome.layer.get? path.render with
  | none =>
    rw [hdescribes.text?_of_get?_eq_none hmodel hcommit hat hget, htext]
    rfl
  | some revision =>
    rw [hdescribes.text?_of_get? hmodel hcommit hat hget]
    rfl

/-- As long as nothing has been edited, the calls that are left edit nothing if none of them does
then. -/
theorem layer_eq_empty_of_course {start progress reached : Progress σ} {front back : List (Reply σ)}
    (hfront : Course start front progress) (hback : Course progress back reached)
    (hempty : progress.outcome.layer = {})
    (hidle : ∀ {ahead made behind progress diagnostics state revised?},
      (front ++ back).map Reply.made = ahead ++ made :: behind →
      Answered start ahead progress →
      (made.handler made.visit).carryOut made.visit progress.state none =
        ((.ok diagnostics, state), revised?) →
      revised? = none) : reached.outcome.layer = {} := by
  induction hback generalizing front with
  | nil => exact hempty
  | @cons progress reached made diagnostics state revised? later hcarried hlater ih =>
    have hfresh : progress.outcome.layer.get? made.visit.address = none := by
      rw [hempty]
      rfl
    have hcarryOut := hcarried
    rw [carried, hfresh] at hcarryOut
    have hcalls : (front ++ ⟨made, diagnostics⟩ :: later).map Reply.made =
        front.map Reply.made ++ made :: later.map Reply.made := by
      simp
    obtain rfl := hidle hcalls ⟨front, hfront, rfl⟩ hcarryOut
    -- What has been answered so far grows with every call.
    have hstep := hfront.append (.cons hcarried .nil)
    exact ih hstep hempty fun hcalls => hidle (by simpa using hcalls)

/-- A phase edits nothing if none of its calls does as long as nothing has been edited. -/
theorem layer_eq_empty_of_run {outcome : Outcome}
    (h : (phase.run model blocked).1 = .ok outcome)
    (hidle : ∀ {front made back progress diagnostics state revised?},
      phase.calls model blocked = front ++ made :: back →
      Answered ⟨phase.start, {}⟩ front progress →
      (made.handler made.visit).carryOut made.visit progress.state none =
        ((.ok diagnostics, state), revised?) →
      revised? = none) : outcome.layer = {} := by
  obtain ⟨replies, state, hcourse, hmade, -⟩ := exists_course_of_run h
  refine layer_eq_empty_of_course .nil hcourse rfl fun hcalls => ?_
  rw [List.nil_append, hmade] at hcalls
  exact hidle hcalls

end Phase

end Retrace
