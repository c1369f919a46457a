import Retrace.Text.Position

/-!
# Diagnostics

A diagnostic says something about a range of the text of one model element, which it names by its
rendered path. Extensions make diagnostics while they run; the engine makes others about the result.
-/

namespace Retrace

/-- How serious a diagnostic is. -/
inductive Severity where
  /-- Later phases may still work on the element. -/
  | recoverable
  /-- Later phases leave the element alone. -/
  | unrecoverable
  deriving DecidableEq, Repr, Inhabited

/-- The phase that made a diagnostic. -/
structure Origin where
  /-- Name of the extension. -/
  extension : String
  /-- Name of the phase. -/
  phase : String
  /-- Number of the phase in the whole pipeline, from zero. -/
  sequence : Nat
  deriving DecidableEq, Repr, Inhabited

/-- A remark about a range of the text of a model element. -/
structure Diagnostic where
  /-- Rendered path of the element. -/
  path : String
  /-- Where in the element's text. -/
  range : Range
  /-- What is wrong. -/
  message : String
  /-- Further explanation, may be empty. -/
  context : String := ""
  /-- How serious it is. -/
  severity : Severity := .recoverable
  /-- Who made it, if a phase did. -/
  origin : Option Origin := none
  deriving DecidableEq, Repr, Inhabited

namespace Diagnostic

/-- A diagnostic for a span of the text of the element at `path`. -/
def atSpan (path : String) (text : Text) (span : Span) (message : String) : Diagnostic :=
  { path, range := Range.ofSpan text span, message }

/-- The diagnostic makes later phases leave its element alone. -/
def isUnrecoverable (diagnostic : Diagnostic) : Bool :=
  diagnostic.severity = .unrecoverable

/-- Show a diagnostic on one line: path, range, message and, if there is one, the context. -/
def render (diagnostic : Diagnostic) : String :=
  let context := if diagnostic.context.isEmpty then "" else s!" ({diagnostic.context})"
  s!"{diagnostic.path} [{diagnostic.range.start}-{diagnostic.range.stop}]: " ++
    diagnostic.message ++ context

end Diagnostic

end Retrace
