import Retrace.Proofs.Handler
import Retrace.Proofs.Phase

/-!
# Phases that succeed

A phase fails if one of its handlers does, and a handler whose edits are accepted in a fresh text
may well be refused in a text that was edited before. A walk enters every element once, so a handler
for entering finds the text of its element as it was, unless another handler was called for the same
element before.

## Main definitions

* `Phase.Reliable`: no handler of a phase fails.

## Main results

* `Phase.Reliable.exists_run`: such a phase succeeds for every model.
-/

namespace Retrace.Phase

variable {σ α β : Type}

/-- The handlers for entering, one at most for each kind of element, succeed in texts without edits,
and those for leaving in any case. -/
structure Reliable (phase : Phase σ) : Prop where
  /-- Handlers for entering succeed if no edit was made. -/
  enter : ∀ registration ∈ phase.enter, ∀ visit,
    Handling.Succeeds visit (· = none) (registration.handler visit) fun _ => True
  /-- No two handlers for entering are called for the same element. -/
  nodup_kinds : (phase.enter.map Registration.kind).Nodup
  /-- Handlers for leaving succeed. -/
  leave : ∀ registration ∈ phase.leave, ∀ visit,
    Handling.Succeeds visit (fun _ => True) (registration.handler visit) fun _ => True

/-- A computation succeeds and leaves all revisions but the one at a path as they are. -/
def Running.Changes (computation : Running σ α) (address : String) (progress : Progress σ) : Prop :=
  ∃ a reached, computation.run.run progress = (.ok a, reached) ∧
    ∀ path, path ≠ address →
      reached.outcome.layer.get? path = progress.outcome.layer.get? path

section Calls

variable {address : String} {progress : Progress σ}

theorem changes_pure (a : α) : Running.Changes (pure a : Running σ α) address progress :=
  ⟨a, progress, rfl, fun _ _ => rfl⟩

/-- What comes of a computation in two steps if the first one succeeds. -/
theorem run_bind_of_run_eq_ok {first : Running σ α} {second : α → Running σ β} {a : α}
    {middle : Progress σ} (h : first.run.run progress = (.ok a, middle)) :
    (first >>= second).run.run progress = (second a).run.run middle := by
  rw [ExceptT.run_bind, StateT.run_bind, h]
  rfl

/-- A handler that succeeds changes the revision of its own element only. -/
theorem changes_call {visit : Visit} {handler : Handler σ} {before after : Option Revision → Prop}
    (h : Handling.Succeeds visit before (handler visit) after) (progress : Progress σ)
    (hbefore : before (progress.outcome.layer.get? visit.address)) :
    (call visit handler).Changes visit.address progress := by
  obtain ⟨diagnostics, state, revised?, hcarry, -⟩ := h progress.state _ hbefore
  have hcarried : carried visit handler progress = ((.ok diagnostics, state), revised?) := hcarry
  rw [Running.Changes, run_call, hcarried]
  refine ⟨_, _, rfl, fun path hne => ?_⟩
  cases revised? with
  | none => rfl
  | some revision => exact Layer.get?_put_of_ne hne _

/-- Handlers that all succeed in any case can be called one after the other. -/
theorem changes_forM_call (visit : Visit) {registrations : List (Registration σ)}
    (h : ∀ registration ∈ registrations,
      Handling.Succeeds visit (fun _ => True) (registration.handler visit) fun _ => True)
    (progress : Progress σ) :
    Running.Changes (forM registrations fun registration => call visit registration.handler)
      visit.address progress := by
  induction registrations generalizing progress with
  | nil => exact changes_pure ()
  | cons registration later ih =>
    obtain ⟨hfirst, hlater⟩ := List.forall_mem_cons.1 h
    obtain ⟨a, middle, hrun, hmiddle⟩ := changes_call hfirst progress trivial
    obtain ⟨b, reached, hrun', hreached⟩ := ih hlater middle
    rw [List.forM_cons]
    exact ⟨b, reached, (run_bind_of_run_eq_ok hrun).trans hrun', fun path hne =>
      (hreached path hne).trans (hmiddle path hne)⟩

end Calls

namespace Reliable

variable {phase : Phase σ} {progress : Progress σ}

/-- Entering an element whose text has not been edited succeeds. -/
theorem changes_enter (hphase : phase.Reliable) (model : Model) (blocked : List String)
    (node : NodeId) {path : Path} (hfresh : progress.outcome.layer.get? path.render = none) :
    (callAll model blocked phase.enter node path).Changes path.render progress := by
  unfold callAll
  dsimp only
  split
  · exact changes_pure ()
  · have hfitting : ∀ registration ∈ phase.enter.filter (·.fits (model.kind node) path),
        registration ∈ phase.enter ∧ registration.kind = model.kind node := by
      intro registration hmem
      obtain ⟨hmem, hfits⟩ := List.mem_filter.1 hmem
      exact ⟨hmem, Registration.kind_eq_of_fits hfits⟩
    have hnodup : ((phase.enter.filter (·.fits (model.kind node) path)).map
        Registration.kind).Nodup :=
      hphase.nodup_kinds.sublist (List.filter_sublist.map _)
    generalize phase.enter.filter (·.fits (model.kind node) path) = fitting at hfitting hnodup
    match fitting with
    | [] => exact changes_pure ()
    | [registration] =>
      have hsucceeds := hphase.enter registration (hfitting registration List.mem_cons_self).1
        ⟨model, node, path⟩
      obtain ⟨a, reached, hrun, hreached⟩ := changes_call hsucceeds progress hfresh
      rw [List.forM_eq_forM, List.forM_cons]
      exact ⟨(), reached, run_bind_of_run_eq_ok hrun, hreached⟩
    | first :: second :: others =>
      -- Both would be called for elements of the same kind.
      have hfirst := (hfitting first (by simp)).2
      have hsecond := (hfitting second (by simp)).2
      simp [hfirst, hsecond] at hnodup

/-- Leaving an element succeeds. -/
theorem changes_leave (hphase : phase.Reliable) (model : Model) (blocked : List String)
    (node : NodeId) (path : Path) :
    (callAll model blocked phase.leave node path).Changes path.render progress := by
  unfold callAll
  dsimp only
  split
  · exact changes_pure ()
  · exact changes_forM_call ⟨model, node, path⟩
      (fun registration hmem => hphase.leave registration (List.mem_filter.1 hmem).1 _) progress

/-- The steps of a walk succeed if no element is entered whose text has been edited. -/
theorem exists_run_forM (hphase : phase.Reliable) (model : Model) (blocked : List String)
    (progress : Progress σ) {steps : List WalkStep}
    (hsteps : steps.Pairwise fun step later =>
      later.isEnter = true → step.path.render ≠ later.path.render)
    (hfresh : ∀ step ∈ steps, step.isEnter = true →
      progress.outcome.layer.get? step.path.render = none) :
    ∃ reached, (forM steps (WalkStep.visit (callAll model blocked phase.enter)
      (callAll model blocked phase.leave))).run.run progress = (.ok (), reached) := by
  induction steps generalizing progress with
  | nil => exact ⟨progress, rfl⟩
  | cons step later ih =>
    obtain ⟨hstep, hlater⟩ := List.pairwise_cons.1 hsteps
    obtain ⟨hfirst, hrest⟩ := List.forall_mem_cons.1 hfresh
    have hchanges : Running.Changes (step.visit (callAll model blocked phase.enter)
        (callAll model blocked phase.leave)) step.path.render progress := by
      cases step with
      | enter node path => exact hphase.changes_enter model blocked node (hfirst rfl)
      | leave node path => exact hphase.changes_leave model blocked node path
    obtain ⟨a, middle, hrun, hmiddle⟩ := hchanges
    -- The element of this step is not entered again, so later ones are still as they were.
    obtain ⟨reached, hreached⟩ := ih middle hlater fun next hnext henter => by
      rw [hmiddle _ (hstep next hnext henter).symm]
      exact hrest next hnext henter
    rw [List.forM_cons]
    exact ⟨reached, (run_bind_of_run_eq_ok hrun).trans hreached⟩

/-- A phase whose handlers do not fail succeeds. -/
theorem exists_run (hphase : phase.Reliable) {model : Model} (hmodel : model.WellFormed)
    (blocked : List String) : ∃ outcome, (phase.run model blocked).1 = .ok outcome := by
  obtain ⟨reached, hreached⟩ := hphase.exists_run_forM model blocked ⟨phase.start, {}⟩
    (Model.pairwise_trace hmodel) fun _ _ _ => rfl
  refine ⟨reached.outcome, ?_⟩
  unfold run
  dsimp only
  rw [Model.walkScoped_eq_forM_trace, hreached]

end Reliable

end Retrace.Phase
