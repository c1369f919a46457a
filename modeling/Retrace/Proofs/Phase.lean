import Retrace.Phase
import Retrace.Proofs.Layer
import Retrace.Proofs.Model.Trace

/-!
# What a phase leaves behind

Whatever the handlers of a phase do, the layer of the phase describes the model it walked through:
a call changes the layer by accepted edits of the text of the visited element alone
(`call_describes`), and a walk is a series of such calls (`run_describes`).
-/

namespace Retrace

namespace Editing

variable {α : Type} {text? : Option Text} {textless : EditError} {editing : Editing α}
  {revision? : Option Revision}

/-- What is true of revisions without edits and stays true with every accepted edit is true of what
comes of carrying out edits. -/
theorem carryOut_preserves {kept : Revision → Prop} (hbegin : ∀ text ∈ text?, kept (.ofText text))
    (hreplace : ∀ {revision revised range inserted inside}, kept revision →
      revision.replace range inserted inside = .ok revised → kept revised)
    (h : ∀ revision ∈ revision?, kept revision) :
    ∀ revision ∈ (editing.carryOut text? textless revision?).2, kept revision := by
  induction editing generalizing revision? with
  | done result => exact h
  | replace range inserted inside next ih =>
    cases text? with
    | none => exact ih _ h
    | some text =>
      -- The first edit begins a revision of the text.
      have hbegun : kept (revision?.getD (.ofText text)) := by
        cases revision? with
        | none => exact hbegin text rfl
        | some revision => exact h revision rfl
      rw [carryOut]
      split
      · rename_i revised haccepted
        refine ih _ fun revision hmem => ?_
        rw [← Option.mem_some.1 hmem]
        exact hreplace hbegun haccepted
      · -- An edit that is refused leaves the revision as it was.
        refine ih _ fun revision hmem => ?_
        rw [← Option.mem_some.1 hmem]
        exact hbegun

/-- Carrying out edits of a text leads from one reachable revision of it to another. -/
theorem carryOut_reachable
    (h : ∀ revision ∈ revision?, ∃ text, text? = some text ∧ revision.Reachable text) :
    ∀ revision ∈ (editing.carryOut text? textless revision?).2,
      ∃ text, text? = some text ∧ revision.Reachable text :=
  carryOut_preserves (fun text htext => ⟨text, htext, .ofText⟩)
    (fun ⟨text, htext, hrevision⟩ hreplace => ⟨text, htext, hrevision.replace hreplace⟩) h

end Editing

namespace Phase

variable {σ α β : Type}

/-! ## Invariants of a walk -/

/-- A computation keeps a property of how far a phase has come, also if it fails. -/
def Running.Preserves (computation : Running σ α) (invariant : Progress σ → Prop) : Prop :=
  ∀ progress, invariant progress → invariant (computation.run.run progress).2

variable {invariant : Progress σ → Prop}

theorem preserves_pure (a : α) : (pure a : Running σ α).Preserves invariant :=
  fun _ h => h

theorem preserves_bind {first : Running σ α} {second : α → Running σ β}
    (hfirst : first.Preserves invariant) (hsecond : ∀ a, (second a).Preserves invariant) :
    (first >>= second).Preserves invariant := by
  intro progress h
  have hstep := hfirst progress h
  rw [ExceptT.run_bind, StateT.run_bind]
  cases hrun : first.run.run progress with
  | mk result reached =>
    rw [hrun] at hstep
    -- Even if the first computation fails, it has kept the property.
    cases result with
    | error fault => exact hstep
    | ok a => exact hsecond a reached hstep

theorem preserves_forM {steps : List α} {act : α → Running σ Unit}
    (h : ∀ step ∈ steps, (act step).Preserves invariant) :
    Running.Preserves (forM steps act) invariant := by
  induction steps with
  | nil => exact preserves_pure ()
  | cons step later ih =>
    rw [List.forM_cons]
    exact preserves_bind (h step List.mem_cons_self) fun _ =>
      ih fun step hstep => h step (List.mem_cons_of_mem _ hstep)

/-! ## The layer of a phase -/

/-- What a handler gives that is called when a phase has come this far. -/
def carried (visit : Visit) (handler : Handler σ) (progress : Progress σ) :
    (Except Fault (List Diagnostic) × σ) × Option Revision :=
  (handler visit).carryOut visit progress.state (progress.outcome.layer.get? visit.address)

/-- The layer after putting the revision of a visited element into it, if there is one. -/
def layerAfter (visit : Visit) (layer : Layer) : Option Revision → Layer
  | some revision => layer.put visit.address ⟨visit.node, revision⟩
  | none => layer

/-- A call step by step: the edits stand in any case, the diagnostics if the handler succeeds. -/
theorem run_call (visit : Visit) (handler : Handler σ) (progress : Progress σ) :
    (call visit handler).run.run progress =
      let layer := layerAfter visit progress.outcome.layer (carried visit handler progress).2
      match (carried visit handler progress).1.1 with
      | .ok diagnostics => (.ok (), ⟨(carried visit handler progress).1.2,
          ⟨layer, progress.outcome.diagnostics ++ diagnostics⟩⟩)
      | .error fault => (.error fault, ⟨(carried visit handler progress).1.2,
          ⟨layer, progress.outcome.diagnostics⟩⟩) := by
  have hget : (get : Running σ (Progress σ)).run.run progress = pure (.ok progress, progress) :=
    rfl
  rw [call, ExceptT.run_bind, StateT.run_bind, hget, pure_bind, carried]
  dsimp only
  rcases (handler visit).carryOut visit progress.state
    (progress.outcome.layer.get? visit.address) with ⟨⟨result, state⟩, revision?⟩
  -- Once the handler has been carried out, what is left to do is the same in every case.
  cases result <;> cases revision? <;> rfl

/-- A call keeps what the edits of its handler keep, whether the handler fails or not. -/
theorem preserves_call (kept : Layer → Prop) {visit : Visit} {handler : Handler σ}
    (h : ∀ progress : Progress σ, kept progress.outcome.layer →
      kept (layerAfter visit progress.outcome.layer (carried visit handler progress).2)) :
    (call visit handler).Preserves fun progress => kept progress.outcome.layer := by
  intro progress hkept
  have hafter := h progress hkept
  rw [run_call]
  cases (carried visit handler progress).1.1 with
  | ok diagnostics => exact hafter
  | error fault => exact hafter

/-- What all calls for an element keep is kept by those that are made. -/
theorem preserves_callAll {model : Model} {node : NodeId} {path : Path} (blocked : List String)
    (registrations : List (Registration σ)) (h : ∀ handler : Handler σ,
      (call ⟨model, node, path⟩ handler).Preserves invariant) :
    (callAll model blocked registrations node path).Preserves invariant := by
  unfold callAll
  dsimp only
  split
  · exact preserves_pure ()
  · exact preserves_forM fun registration _ => h registration.handler

/-- What is true of an empty layer and is kept by all calls is true of the layer of a phase. -/
theorem layer_of_run (kept : Layer → Prop) {phase : Phase σ} {model : Model}
    {blocked : List String} {outcome : Outcome} (hstart : kept {})
    (hcall : ∀ {node path}, model.At node path → ∀ handler : Handler σ,
      (call ⟨model, node, path⟩ handler).Preserves fun progress => kept progress.outcome.layer)
    (h : (phase.run model blocked).1 = .ok outcome) : kept outcome.layer := by
  have hwalk : Running.Preserves (model.walkScoped (callAll model blocked phase.enter)
      (callAll model blocked phase.leave)) fun progress => kept progress.outcome.layer := by
    rw [Model.walkScoped_eq_forM_trace]
    refine preserves_forM fun step hstep => ?_
    have hat := Model.at_of_mem_trace hstep
    cases step with
    | enter node path => exact preserves_callAll blocked phase.enter (hcall hat)
    | leave node path => exact preserves_callAll blocked phase.leave (hcall hat)
  have hend := hwalk ⟨phase.start, {}⟩ hstart
  unfold run at h
  dsimp only at h
  split at h
  · rename_i progress hrun
    rw [hrun] at hend
    obtain rfl := Except.ok.inj h
    exact hend
  · cases h

/-- A call changes the layer by edits of the text of the visited element alone, whether the handler
fails or not. -/
theorem call_describes (visit : Visit) (hat : visit.model.At visit.node visit.path)
    (hmodel : visit.model.WellFormed) (handler : Handler σ) :
    (call visit handler).Preserves fun progress =>
      progress.outcome.layer.Describes visit.model := by
  refine preserves_call (·.Describes visit.model) fun progress h => ?_
  have hbegun : ∀ revision ∈ progress.outcome.layer.get? visit.address,
      ∃ text, visit.text? = some text ∧ revision.Reachable text :=
    fun revision hget => h.reachable_of_get? hmodel hat hget
  -- The handler goes on with the revision that earlier handlers have left.
  have hcarried : ∀ revision ∈ (carried visit handler progress).2,
      ∃ text, visit.text? = some text ∧ revision.Reachable text :=
    Editing.carryOut_reachable hbegun
  cases hrevision : (carried visit handler progress).2 with
  | none => exact h
  | some revision =>
    obtain ⟨text, htext, hreachable⟩ := hcarried revision hrevision
    exact h.put hat htext hreachable

/-- All calls of a walk together leave a layer that describes the model. -/
theorem run_describes {phase : Phase σ} {model : Model} (hmodel : model.WellFormed)
    {blocked : List String} {outcome : Outcome} (h : (phase.run model blocked).1 = .ok outcome) :
    outcome.layer.Describes model :=
  layer_of_run (·.Describes model) (Layer.describes_empty model)
    (fun hat handler => call_describes ⟨model, _, _⟩ hat hmodel handler) h

end Phase

end Retrace
