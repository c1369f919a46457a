import Retrace.Model.Writer
import Retrace.Registry

/-!
# Sessions

A session runs a list of extensions over models and queries, and moves diagnostics about the result
back to what was sent. It keeps the layers of its latest model and the revisions of its latest
query; a new request of the same kind replaces them.

A model that cannot be read is no failure: it comes back unchanged, with a diagnostic that says why.
-/

namespace Retrace

/-- A way to read and write models. -/
structure Format where
  /-- Read a model. -/
  read : Text → Except Fault Model
  /-- Write a model. -/
  write : Model → Except Fault Text

/-- The format of model documents. -/
def Format.markup : Format where
  read text := (Model.read text).mapError .document
  write model := model.write.mapError .slot

/-- A mapped model or query. -/
structure Mapped where
  /-- The text that results. -/
  text : Text
  /-- What there is to say about the text that was sent. -/
  diagnostics : List Diagnostic := []
  deriving DecidableEq, Repr

/-- Extensions in the order in which they are run, and what is kept of the latest requests. -/
structure Session where
  /-- The extensions with the names under which they are run. -/
  extensions : List (String × Extension)
  /-- How models are read and written. -/
  format : Format := .markup
  /-- The layers of the latest model, the latest first. -/
  layers : List Layer := []
  /-- The revisions of the latest query, the latest first. -/
  revisions : List Revision := []

namespace Session

/-- A session with the extensions of these names. -/
def ofIds (registry : Registry) (ids : List String) : Except RegistryError Session :=
  match ids.mapM fun id => (registry.find id).map fun extension => (id, extension) with
  | .error error => .error error
  | .ok extensions => .ok { extensions }

/-- The names of the extensions. -/
def ids (session : Session) : List String :=
  session.extensions.map Prod.fst

/-! ## Models -/

/-- How the root element of a model begins. -/
def rootMark : Text := ['<', 'n', 't', 'a']

/-- The path in diagnostics about the model as a whole. -/
def rootPath : String := "/nta"

/-- Split a text before the root element. Without one all of it is the second part. -/
def splitPreamble (text : Text) : Text × Text :=
  match Text.find? rootMark text with
  | some offset => Text.split offset text
  | none => ([], text)

/-- Move a diagnostic back through layers, the latest first. A diagnostic that begins inside
generated text is lost. -/
def retraceThrough (layers : List Layer) (diagnostic : Diagnostic) : Option Diagnostic :=
  layers.foldlM (fun diagnostic layer => layer.retrace? diagnostic) diagnostic

/-- A model while the phases are run over it. -/
structure Run where
  /-- The model as the phases so far have left it. -/
  model : Model
  /-- The layers of the phases so far, the latest first. -/
  layers : List Layer := []
  /-- The paths of elements that later phases leave alone. -/
  blocked : List String := []
  /-- The diagnostics so far, about the texts that were sent. -/
  diagnostics : List Diagnostic := []
  /-- The number of phases so far. -/
  sequence : Nat := 0

/-- What a phase adds to a run: its diagnostics are about the model before it, so they are moved
back through the layers of earlier phases only. -/
def Run.add (run : Run) (origin : Origin) (model : Model) (outcome : Outcome) : Run :=
  -- The layer of this phase is not among those of the run yet.
  let traced := (outcome.diagnostics.filterMap (retraceThrough run.layers)).map fun diagnostic =>
    { diagnostic with origin := some origin }
  { model
    layers := outcome.layer :: run.layers
    blocked :=
      (outcome.diagnostics.filter Diagnostic.isUnrecoverable).map Diagnostic.path ++ run.blocked
    diagnostics := run.diagnostics ++ traced
    sequence := run.sequence + 1 }

/-- Run one phase and bring its edits into the model. -/
def Run.pass (run : Run) (extension : String) (pass : Pass) : Except Fault Run :=
  match pass.run run.model run.blocked with
  | .error fault => .error fault
  | .ok outcome =>
    match outcome.layer.commit run.model with
    | .error error => .error (.edit error)
    | .ok model => .ok (run.add ⟨extension, pass.name, run.sequence⟩ model outcome)

/-- Run phases one after the other up to the first that fails. The run as it was before that phase
is given together with the fault. -/
def Run.passAll : List (String × Pass) → Run → Run × Option Fault
  | [], run => (run, none)
  | (extension, pass) :: later, run =>
    match run.pass extension pass with
    | .ok run => passAll later run
    | .error fault => (run, some fault)

/-- All phases in the order in which they are run, with the names of their extensions. -/
def passes (session : Session) : List (String × Pass) :=
  session.extensions.flatMap fun (id, extension) => extension.passes.map fun pass => (id, pass)

/-- The diagnostic about a model that cannot be read; its body begins at `bodyStart`. -/
def unreadable (text : Text) (bodyStart : Nat) (fault : Fault) : Diagnostic :=
  let span := (fault.span?.getD (.point 0)).shift bodyStart
  { Diagnostic.atSpan rootPath text span fault.message with severity := .unrecoverable }

/-- Run all phases over a model. -/
def mapModel (session : Session) (text : Text) : Except Fault Mapped × Session :=
  let (preamble, body) := splitPreamble text
  match session.format.read body with
  | .error fault =>
    let session := { session with layers := [] }
    if fault.isInput then (.ok ⟨text, [unreadable text (Text.size preamble) fault]⟩, session)
    else (.error fault, session)
  | .ok model =>
    let (run, fault?) := Run.passAll session.passes { model }
    let session := { session with layers := run.layers }
    match fault? with
    | some fault => (.error fault, session)
    | none =>
      match session.format.write run.model with
      | .error fault => (.error fault, session)
      | .ok body => (.ok ⟨preamble ++ body, run.diagnostics⟩, session)

/-- Move a diagnostic about the latest mapped model back to the text that was sent. -/
def retrace? (session : Session) (diagnostic : Diagnostic) : Option Diagnostic :=
  retraceThrough session.layers diagnostic

/-! ## Queries and processes -/

/-- Move a diagnostic back through revisions of a query, the latest first. -/
def retraceQueryThrough (revisions : List Revision) (diagnostic : Diagnostic) : Option Diagnostic :=
  revisions.foldlM (fun diagnostic revision => revision.retraceDiagnostic? diagnostic) diagnostic

/-- Let extensions revise a query one after the other, up to the first that fails. What is given
after the query are the revisions, the latest first. -/
def reviseAll : List Extension → Mapped → List Revision → Except Fault Mapped × List Revision
  | [], mapped, revisions => (.ok mapped, revisions)
  | extension :: later, mapped, revisions =>
    match extension.reviseQuery mapped.text with
    | .error fault => (.error fault, revisions)
    | .ok none => reviseAll later mapped revisions
    | .ok (some revised) =>
      let traced := revised.diagnostics.filterMap (retraceQueryThrough revisions)
      reviseAll later ⟨revised.revision.current, mapped.diagnostics ++ traced⟩
        (revised.revision :: revisions)

/-- Revise a query. -/
def mapQuery (session : Session) (query : Text) : Except Fault Mapped × Session :=
  let (result, revisions) := reviseAll (session.extensions.map Prod.snd) ⟨query, []⟩ []
  (result, { session with revisions })

/-- Move a diagnostic about the latest mapped query back to the text that was sent; its path does
not matter. -/
def retraceQuery? (session : Session) (diagnostic : Diagnostic) : Option Diagnostic :=
  retraceQueryThrough session.revisions diagnostic

/-- Let every extension change the list of processes. -/
def mapProcesses (session : Session) (processes : List ListedProcess) : List ListedProcess :=
  session.extensions.foldl (fun processes entry => entry.2.reviseProcesses processes) processes

end Session

end Retrace
