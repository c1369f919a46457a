import Retrace.Handler
import Retrace.Layer
import Retrace.Model.Walk

/-!
# Phases

A phase is one walk through a model. Handlers are registered for a kind of element and for the kinds
around it; at every element all registered handlers are called that fit, those for entering before
the elements inside it are visited, those for leaving after them. Elements with a blocked path are
passed over, but not what is inside them.

All handlers see the texts as they were before the phase. Their edits are collected in a layer.
-/

namespace Retrace

/-- A handler and the elements it is called for. -/
structure Registration (σ : Type) where
  /-- The kind of element. -/
  kind : NodeKind
  /-- The kinds in which the path of the element has to end; they include its own. -/
  filter : List NodeKind
  /-- What is done. -/
  handler : Handler σ

/-- The handler is called for elements of a kind at a path. -/
def Registration.fits {σ : Type} (registration : Registration σ) (kind : NodeKind)
    (path : Path) : Bool :=
  registration.kind = kind && path.endsIn registration.filter

theorem Registration.kind_eq_of_fits {σ : Type} {registration : Registration σ} {kind : NodeKind}
    {path : Path} (h : registration.fits kind path = true) : registration.kind = kind :=
  of_decide_eq_true (Bool.and_eq_true_iff.1 h).1

/-- A walk with handlers that share a state. -/
structure Phase (σ : Type) where
  /-- The name of the phase. -/
  name : String
  /-- The state before the walk. -/
  start : σ
  /-- What is done when elements are entered. -/
  enter : List (Registration σ) := []
  /-- What is done when elements are left. -/
  leave : List (Registration σ) := []

/-- What a phase gives. -/
structure Outcome where
  /-- The edits of all handlers. -/
  layer : Layer := {}
  /-- The diagnostics of all handlers, in the order of the calls. -/
  diagnostics : List Diagnostic := []

/-- How far a phase has come. -/
structure Progress (σ : Type) where
  /-- The state of the handlers. -/
  state : σ
  /-- What the phase has given so far. -/
  outcome : Outcome := {}

namespace Phase

variable {σ : Type}

/-- Call a handler when elements of a kind are entered whose path ends in `filter`. -/
def onEnter (phase : Phase σ) (kind : NodeKind) (filter : List NodeKind) (handler : Handler σ) :
    Phase σ :=
  { phase with enter := phase.enter ++ [⟨kind, filter, handler⟩] }

/-- Call a handler when elements of a kind are left whose path ends in `filter`. -/
def onLeave (phase : Phase σ) (kind : NodeKind) (filter : List NodeKind) (handler : Handler σ) :
    Phase σ :=
  { phase with leave := phase.leave ++ [⟨kind, filter, handler⟩] }

/-- A computation that makes progress and may fail. -/
abbrev Running (σ α : Type) := ExceptT Fault (StateM (Progress σ)) α

/-- Call a handler. -/
def call (visit : Visit) (handler : Handler σ) : Running σ Unit := do
  let progress ← get
  let layer := progress.outcome.layer
  let ((result, state), revision?) :=
    (handler visit).carryOut visit progress.state (layer.get? visit.address)
  -- Edits stand even if the handler fails afterwards; the whole layer is given up then.
  let layer := match revision? with
    | some revision => layer.put visit.address ⟨visit.node, revision⟩
    | none => layer
  match result with
  | .ok diagnostics => set (Progress.mk state ⟨layer, progress.outcome.diagnostics ++ diagnostics⟩)
  | .error fault =>
    set (Progress.mk state ⟨layer, progress.outcome.diagnostics⟩)
    throw fault

/-- Call all handlers among some that fit an element, unless its path is blocked. -/
def callAll (model : Model) (blocked : List String) (registrations : List (Registration σ))
    (node : NodeId) (path : Path) : Running σ Unit :=
  let fitting := registrations.filter fun registration => registration.fits (model.kind node) path
  if fitting.isEmpty || blocked.contains path.render then pure ()
  else fitting.forM fun registration => call ⟨model, node, path⟩ registration.handler

/-- Walk through a model and call the handlers, except at blocked paths. The state is given back
even if a handler fails. -/
def run (phase : Phase σ) (model : Model) (blocked : List String) : Except Fault Outcome × σ :=
  let walked : Running σ Unit :=
    model.walkScoped (callAll model blocked phase.enter) (callAll model blocked phase.leave)
  match walked.run.run ⟨phase.start, {}⟩ with
  | (.ok _, progress) => (.ok progress.outcome, progress.state)
  | (.error fault, progress) => (.error fault, progress.state)

end Phase

end Retrace
