import Retrace.Phase

/-!
# Extensions

An extension adds something to the language of models and queries. It contributes phases that turn
extended models into plain ones, a revision of queries, and a change to the list of processes that a
simulator shows; each of the three may do nothing.
-/

namespace Retrace

/-- A process as a simulator lists it. -/
structure ListedProcess where
  /-- The name of the process. -/
  name : String
  /-- The name of its template. -/
  template : String
  deriving DecidableEq, Repr

/-- A revised query. -/
structure RevisedQuery where
  /-- The revision of the text. -/
  revision : Revision
  /-- What there is to say about the text before. -/
  diagnostics : List Diagnostic := []

/-- The path in diagnostics about queries. -/
def queryPath : String := "/query"

/-- A phase with a state of some type. -/
structure Pass where
  /-- The type of the state. -/
  State : Type
  /-- The phase. -/
  phase : Phase State

namespace Pass

/-- The name of the phase. -/
def name (pass : Pass) : String :=
  pass.phase.name

/-- Walk through a model, starting with the first state. -/
def run (pass : Pass) (model : Model) (blocked : List String) : Except Fault Outcome :=
  (pass.phase.run model blocked).1

end Pass

/-- A phase as a pass. -/
def Phase.toPass {σ : Type} (phase : Phase σ) : Pass :=
  ⟨σ, phase⟩

/-- An extension of the language of models and queries. -/
structure Extension where
  /-- The name of the extension. -/
  id : String
  /-- The phases, in the order in which they are run. -/
  passes : List Pass := []
  /-- Revise a query, or leave queries alone. -/
  reviseQuery : Text → Except Fault (Option RevisedQuery) := fun _ => .ok none
  /-- Change the list of processes. -/
  reviseProcesses : List ListedProcess → List ListedProcess := fun processes => processes

end Retrace
