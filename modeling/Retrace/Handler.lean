import Retrace.Diagnostic
import Retrace.Fault
import Retrace.Revision.Editing

/-!
# Handlers

A handler is called for an element of a model. It sees the model as it is before the phase, may keep
a state from call to call, may ask for edits of the text of its own element, and gives diagnostics
or fails.
-/

namespace Retrace

/-- What a handler is called for. -/
structure Visit where
  /-- The model before the phase. -/
  model : Model
  /-- The element. -/
  node : NodeId
  /-- The path of the element. -/
  path : Path

namespace Visit

/-- The rendered path of the element. -/
def address (visit : Visit) : String :=
  visit.path.render

/-- The kind of the element. -/
def kind (visit : Visit) : NodeKind :=
  visit.model.kind visit.node

/-- The text of the element before the phase. -/
def text? (visit : Visit) : Option Text :=
  visit.model.text? visit.node

/-- The value of an attribute of the element. -/
def attribute? (visit : Visit) (name : Text) : Option Text :=
  (visit.model.node visit.node).attribute? name

/-- What the expression of a label means. -/
def labelKind? (visit : Visit) : Option LabelKind :=
  (visit.model.node visit.node).labelKind?

/-- A diagnostic about a span of the text of the element. -/
def diagnostic (visit : Visit) (span : Span) (message : String) : Diagnostic :=
  .atSpan visit.address (visit.text?.getD []) span message

end Visit

/-- A computation of a handler with a state of type `σ`. The state outlives a failure. -/
abbrev Handling (σ α : Type) := ExceptT Fault (StateT σ Editing) α

namespace Handling

variable {σ α : Type}

/-- Replace a span of the text of the element; fail if the edit is refused. -/
def replace (range : Span) (inserted : Text) (inside : Inside) : Handling σ Unit := do
  match ← (Editing.ask range inserted inside : StateT σ Editing (Option EditError)) with
  | none => pure ()
  | some error => throw (.edit error)

/-- Carry out a handling for an element whose text may have been revised before. -/
def carryOut (handling : Handling σ α) (visit : Visit) (state : σ) (revision? : Option Revision) :
    (Except Fault α × σ) × Option Revision :=
  Editing.carryOut visit.text? (.noText visit.address) (handling.run.run state) revision?

end Handling

/-- What is done when an element is visited. -/
abbrev Handler (σ : Type) := Visit → Handling σ (List Diagnostic)

end Retrace
