import Retrace.Proofs.Model.Detach
import Retrace.Proofs.Model.Trace
import Retrace.Session

/-!
# Runs that take no notice of the document

Most handlers look at the tree of a model only: at kinds, attributes and texts, at paths, and at the
state of their phase. A phase of such handlers does the same to any two models that are the same
tree, whatever documents they were read from. So a run may be broken off after some phases and go on
with another model that is the same tree (`Session.Run.Continues`): the phases that follow give the
same layers, in front of those that were there before.

## Main definitions

* `Handler.IgnoresDocument`, `Phase.IgnoresDocument`: handlers that look at the tree only, and
  phases of such handlers;
* `Session.Run.Continues`: a run goes on from where another one begins.

## Main results

* `Phase.run_detach`: what such a phase gives does not depend on the document;
* `Session.Run.Continues.passAll`: such phases let a run continue another one.
-/

namespace Retrace

variable {σ : Type}

/-- A handler does the same for a model without its document. -/
def Handler.IgnoresDocument (handler : Handler σ) : Prop :=
  ∀ visit : Visit, handler { visit with model := visit.model.detach } = handler visit

/-- No handler of a phase looks at the document. -/
structure Phase.IgnoresDocument (phase : Phase σ) : Prop where
  /-- Not when elements are entered. -/
  enter : ∀ registration ∈ phase.enter, registration.handler.IgnoresDocument
  /-- And not when they are left. -/
  leave : ∀ registration ∈ phase.leave, registration.handler.IgnoresDocument

namespace Phase

theorem call_detach {handler : Handler σ} (h : handler.IgnoresDocument) (visit : Visit) :
    call { visit with model := visit.model.detach } handler = call visit handler := by
  have htext : Visit.text? { visit with model := visit.model.detach } = visit.text? :=
    Model.text?_detach ..
  unfold call
  rw [h visit]
  simp only [Handling.carryOut, htext]
  rfl

theorem callAll_detach {model : Model} {blocked : List String}
    {registrations : List (Registration σ)}
    (h : ∀ registration ∈ registrations, registration.handler.IgnoresDocument) :
    callAll model.detach blocked registrations = callAll model blocked registrations := by
  funext node path
  unfold callAll
  rw [Model.kind_detach]
  dsimp only
  split
  · rfl
  · -- Calling the fitting handlers one by one makes no difference for any of them.
    refine Model.forM_congr fun registration hmem => ?_
    exact call_detach (h registration (List.mem_filter.1 hmem).1) ⟨model, node, path⟩

/-- What a phase gives does not depend on the document if no handler looks at it. -/
theorem run_detach {phase : Phase σ} (h : phase.IgnoresDocument) (model : Model)
    (blocked : List String) : phase.run model.detach blocked = phase.run model blocked := by
  unfold run
  rw [callAll_detach h.enter, callAll_detach h.leave, Model.walkScoped_detach]

end Phase

namespace Session

/-- The run `later` has come as far as `run`, with a model that is the same tree, but it has come
there through some earlier layers. -/
structure Run.Continues (layers : List Layer) (run later : Run) : Prop where
  /-- The models are the same tree. -/
  model_eq : later.model.detach = run.model.detach
  /-- The earlier layers are behind those of both. -/
  layers_eq : later.layers = run.layers ++ layers
  /-- The same elements are left alone. -/
  blocked_eq : later.blocked = run.blocked

namespace Run.Continues

variable {layers : List Layer} {run later : Run}

/-- A phase fails in both runs or in none, and lets the one continue the other. -/
theorem pass (h : Continues layers run later) {pass : Pass} (hpass : pass.phase.IgnoresDocument)
    (extension : String) :
    (∃ fault, run.pass extension pass = .error fault ∧
      later.pass extension pass = .error fault) ∨
    ∃ next next', run.pass extension pass = .ok next ∧ later.pass extension pass = .ok next' ∧
      Continues layers next next' := by
  have hrun : pass.run later.model later.blocked = pass.run run.model run.blocked := by
    rw [Pass.run, Pass.run, ← Phase.run_detach hpass, h.model_eq, Phase.run_detach hpass,
      h.blocked_eq]
  unfold Run.pass
  rw [hrun]
  cases pass.run run.model run.blocked with
  | error fault => exact Or.inl ⟨fault, rfl, rfl⟩
  | ok outcome =>
    dsimp only
    -- Both models take the same edits.
    have hcommit : (outcome.layer.commit later.model).map Model.detach =
        (outcome.layer.commit run.model).map Model.detach := by
      rw [← Layer.commit_detach, h.model_eq, Layer.commit_detach]
    cases hfirst : outcome.layer.commit run.model with
    | error error =>
      rw [hfirst] at hcommit
      cases hsecond : outcome.layer.commit later.model with
      | error error' =>
        rw [hsecond] at hcommit
        obtain rfl := Except.error.inj hcommit
        exact Or.inl ⟨.edit error', rfl, rfl⟩
      | ok edited =>
        rw [hsecond] at hcommit
        cases hcommit
    | ok edited =>
      rw [hfirst] at hcommit
      obtain ⟨edited', hsecond, hdetach⟩ := Except.map_eq_ok.1 hcommit
      rw [hsecond]
      refine Or.inr ⟨_, _, rfl, rfl, hdetach, ?_, ?_⟩
      · rw [Run.add, Run.add, h.layers_eq, List.cons_append]
      · rw [Run.add, Run.add, h.blocked_eq]

/-- Phases in a row let a run continue another one, up to the first that fails in both. -/
theorem passAll (h : Continues layers run later) {passes : List (String × Pass)}
    (hpasses : ∀ entry ∈ passes, entry.2.phase.IgnoresDocument) :
    (Run.passAll passes later).2 = (Run.passAll passes run).2 ∧
      Continues layers (Run.passAll passes run).1 (Run.passAll passes later).1 := by
  induction passes generalizing run later with
  | nil => exact ⟨rfl, h⟩
  | cons first rest ih =>
    obtain ⟨extension, pass⟩ := first
    obtain ⟨hfirst, hrest⟩ := List.forall_mem_cons.1 hpasses
    rw [Run.passAll, Run.passAll]
    rcases h.pass hfirst extension with ⟨fault, hrun, hlater⟩ | ⟨next, next', hrun, hlater, hnext⟩
    · rw [hrun, hlater]
      exact ⟨rfl, h⟩
    · rw [hrun, hlater]
      exact ih hnext hrest

end Run.Continues

end Session

end Retrace
