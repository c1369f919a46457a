import Retrace.Proofs.Phase.Calls

/-!
# The sequence of calls

The calls of a phase follow the tree: those for entering an element, then those inside it, child by
child, and then those for leaving it (`Phase.callsIn_eq`). A phase makes them in this order, each
with the state that the one ahead of it has left and with the model as it was before the phase. If
no handler fails, all of them are made (`Phase.run_eq_ok_iff`), and otherwise those up to the first
that fails (`Phase.run_eq_error_iff`).

## Main definitions

* `Phase.callsIn`: the calls in one element and inside it.

## Main results

* `Phase.calls_and_run`: which calls a phase makes and what comes of them.
-/

namespace Retrace.Phase

variable {σ : Type} {phase : Phase σ} {model : Model} {blocked : List String} {node : NodeId}
  {path : Path}

/-! ## Following the tree -/

/-- The calls that a phase makes in an element and inside it as long as no handler fails. -/
def callsIn (phase : Phase σ) (model : Model) (blocked : List String) (node : NodeId)
    (path : Path) : List (Call σ) :=
  (model.traceFrom model.size node path).flatMap
    (WalkStep.visit (callsAt model blocked phase.enter) (callsAt model blocked phase.leave))

/-- The calls at an element are those of the handlers for its kind whose filter the kinds on its
path end in, in the order of registration. -/
theorem callsAt_eq (registrations : List (Registration σ)) :
    callsAt model blocked registrations node path =
      if path.render ∈ blocked then []
      else (registrations.filter fun registration =>
          registration.kind = model.kind node ∧ registration.filter <:+ path.kinds).map
        fun registration => ⟨⟨model, node, path⟩, registration.handler⟩ := by
  have hfits (registration : Registration σ) : registration.fits (model.kind node) path =
      decide (registration.kind = model.kind node ∧ registration.filter <:+ path.kinds) := by
    rw [Bool.eq_iff_iff, Registration.fits, Path.endsIn, Bool.and_eq_true,
      List.isSuffixOf_iff_suffix, decide_eq_true_eq, decide_eq_true_eq]
  rw [callsAt, registered, List.contains_eq_mem]
  simp only [hfits, decide_eq_true_eq]

/-- The calls in an element are those for entering it, those in its children and those for leaving
it. -/
theorem callsIn_eq (hmodel : model.WellFormed) (hat : model.At node path) :
    phase.callsIn model blocked node path =
      callsAt model blocked phase.enter node path ++
        (model.childPaths node path).flatMap (fun (child, childPath) =>
          phase.callsIn model blocked child childPath) ++
        callsAt model blocked phase.leave node path := by
  rw [callsIn, Model.traceFrom_size hmodel (hat.lt_size hmodel)]
  simp only [List.flatMap_append, List.flatMap_cons, List.flatMap_nil, List.append_nil,
    List.flatMap_assoc, WalkStep.visit, callsIn]

/-- What a phase does with a model: it calls the handlers for entering an element, then goes through
the children in their order, and then calls the handlers for leaving the element. Those are called
that are registered for the kind of the element and with a filter in which the kinds on its path
end, unless the path is blocked. Every handler is given the model as it was before the phase. Either
all calls are answered, each with the state that the one ahead of it has left, and the diagnostics
of the answers are those of the phase; or they are up to one that fails, and its fault is that of
the phase. -/
theorem calls_and_run (hmodel : model.WellFormed) (phase : Phase σ) (blocked : List String) :
    phase.calls model blocked = phase.callsIn model blocked Model.root .root ∧
    (∀ {node path}, model.At node path →
      (model.childPaths node path).map Prod.fst = model.orderedChildren node ∧
      phase.callsIn model blocked node path =
        callsAt model blocked phase.enter node path ++
          (model.childPaths node path).flatMap (fun (child, childPath) =>
            phase.callsIn model blocked child childPath) ++
          callsAt model blocked phase.leave node path) ∧
    (∀ (registrations : List (Registration σ)) (node : NodeId) (path : Path),
      callsAt model blocked registrations node path =
        if path.render ∈ blocked then []
        else (registrations.filter fun registration =>
            registration.kind = model.kind node ∧ registration.filter <:+ path.kinds).map
          fun registration => ⟨⟨model, node, path⟩, registration.handler⟩) ∧
    (∀ made ∈ phase.calls model blocked, made.visit.model = model ∧
      made.visit.text? = model.text? made.visit.node) ∧
    (∀ {outcome state}, phase.run model blocked = (.ok outcome, state) ↔
      ∃ replies, Course ⟨phase.start, {}⟩ replies ⟨state, outcome⟩ ∧
        replies.map Reply.made = phase.calls model blocked ∧
        outcome.diagnostics = replies.flatMap Reply.diagnostics) ∧
    ∀ {fault state}, phase.run model blocked = (.error fault, state) ↔
      ∃ replies middle failing back revision?, Course ⟨phase.start, {}⟩ replies middle ∧
        phase.calls model blocked = replies.map Reply.made ++ failing :: back ∧
        carried failing.visit failing.handler middle = ((.error fault, state), revision?) := by
  refine ⟨rfl, fun {node path} hat => ⟨Model.map_fst_childPaths node path, callsIn_eq hmodel hat⟩,
    fun registrations node path => callsAt_eq registrations, fun made hmade => ?_, run_eq_ok_iff,
    run_eq_error_iff⟩
  have hvisit : made.visit.model = model := (at_of_mem_calls hmade).1
  exact ⟨hvisit, by rw [Visit.text?, hvisit]⟩

/-- Count calls, and report the number of those ahead. -/
def count (visit : Visit) : Handling Nat (List Diagnostic) := do
  let ahead ← get
  set (ahead + 1)
  pure [visit.diagnostic ⟨0, 0⟩ (toString ahead)]

/-- A phase that counts calls for declarations of templates, for templates and for the model. -/
def counting : Phase Nat :=
  let counting : Phase Nat := { name := "count", start := 0 }
  (((counting.onLeave .nta [] count).onEnter .declaration [.template, .declaration] count).onEnter
    .template [.nta, .template] count).onLeave .template [] count

/-- The first template is blocked; the second one is entered, then its declaration, then it is left,
and the model is left last of all. -/
theorem calls_and_run_counting :
    Model.requested.WellFormed ∧ ∃ replies outcome,
      counting.run Model.requested ["/nta/template[1]"] = (.ok outcome, 4) ∧
      Course ⟨0, {}⟩ replies ⟨4, outcome⟩ ∧
      replies.map (·.made.visit.address) =
        ["/nta/template[2]", "/nta/template[2]/declaration", "/nta/template[2]", "/nta"] ∧
      outcome.diagnostics.map Diagnostic.message = ["0", "1", "2", "3"] := by
  have hmodel : Model.requested.WellFormed :=
    Model.Grown.wellFormed <| ((((Model.Grown.empty.request .template (by decide)).request .system
      (by decide)).request .template (by decide)).request .declaration (by decide +kernel)).request
      .system (by decide +kernel)
  obtain ⟨-, -, -, -, hok, -⟩ := calls_and_run hmodel counting ["/nta/template[1]"]
  have hmessages : (counting.run Model.requested ["/nta/template[1]"]).1.toOption.map
      (fun outcome => outcome.diagnostics.map Diagnostic.message) = some ["0", "1", "2", "3"] := by
    decide +kernel
  obtain ⟨outcome, hresult, hmessages⟩ := Option.map_eq_some_iff.1 hmessages
  have hstate : (counting.run Model.requested ["/nta/template[1]"]).2 = 4 := by
    decide +kernel
  have hrun : counting.run Model.requested ["/nta/template[1]"] = (.ok outcome, 4) :=
    Prod.ext (Except.toOption_eq_some.1 hresult) hstate
  obtain ⟨replies, hcourse, hmade, -⟩ := hok.1 hrun
  refine ⟨hmodel, replies, outcome, hrun, hcourse, ?_, hmessages⟩
  have haddresses : (counting.calls Model.requested ["/nta/template[1]"]).map (·.visit.address) =
      ["/nta/template[2]", "/nta/template[2]/declaration", "/nta/template[2]", "/nta"] := by
    decide +kernel
  rwa [← hmade, List.map_map] at haddresses

end Retrace.Phase
