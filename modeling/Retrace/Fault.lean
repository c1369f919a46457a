import Retrace.Grammar.Error
import Retrace.Model.Document

/-!
# Faults

A fault is a reason why an operation of the library gives no result. Each fault belongs to one area;
faults of the area `document` are faults of the input, all others are mistakes in an extension, in
the configuration or in the way the library is used.
-/

namespace Retrace

/-- A part of the library in which something can go wrong. -/
inductive Area where
  /-- Grammar descriptions. -/
  | grammar
  /-- Edits of texts. -/
  | edit
  /-- Paths and walks. -/
  | path
  /-- The registry of extensions. -/
  | registry
  /-- Model documents and diagnostic records. -/
  | document
  /-- The configuration. -/
  | settings
  /-- Files. -/
  | file
  deriving DecidableEq, Repr

/-- How messages about an area begin. -/
def Area.title : Area → String
  | grammar => "Grammar error"
  | edit => "Rewrite error"
  | path => "Path error"
  | registry => "Registry error"
  | document => "Model codec error"
  | settings => "Configuration error"
  | file => "I/O error"

/-- Why the registry of extensions refuses a request. -/
inductive RegistryError where
  /-- The name is taken. -/
  | taken (name : String)
  /-- There is no such extension among the known ones. -/
  | unknown (name : String) (known : List String)
  deriving DecidableEq, Repr

namespace RegistryError

/-- The wording of a refusal. -/
def message : RegistryError → String
  | taken name => s!"mapper '{name}' is registered twice"
  | unknown name _ => s!"unknown mapper '{name}'"

/-- What could be done about a refusal. -/
def help? : RegistryError → Option String
  | taken _ => none
  | unknown _ known => some ("known mappers: " ++ ", ".intercalate known)

end RegistryError

/-- What is wrong with the configuration. -/
inductive SettingsError where
  /-- The text is not a configuration. -/
  | invalid
  /-- The text of a file is not a configuration. -/
  | invalidFile (path : String)
  /-- The configuration file does not exist. -/
  | missing (path : String)
  deriving DecidableEq, Repr

/-- The wording of a fault. -/
def SettingsError.message : SettingsError → String
  | invalid => "invalid configuration"
  | invalidFile path => s!"{path}: invalid configuration"
  | missing path => s!"configuration file {path} does not exist"

/-- A reason why an operation gives no result. -/
inductive Fault where
  /-- A grammar description is wrong. -/
  | grammar (error : GrammarError)
  /-- An edit is refused. -/
  | edit (error : EditError)
  /-- A text is not a path. -/
  | path (error : PathError)
  /-- The registry refuses a request. -/
  | registry (error : RegistryError)
  /-- An element cannot be added to a model. -/
  | misfit (error : StructureError)
  /-- A document cannot be read. -/
  | document (error : DocumentError)
  /-- A text does not fit into the document any more. -/
  | slot (span : Span)
  /-- A line is not a diagnostic record. -/
  | record
  /-- The configuration is wrong. -/
  | settings (error : SettingsError)
  /-- A file cannot be read or written. -/
  | file
  /-- A fault with a wording of its own, stated by an extension or a visitor. -/
  | stated (area : Area) (message : String)
  deriving DecidableEq, Repr

namespace Fault

/-- The area a fault belongs to. -/
def area : Fault → Area
  | grammar _ => .grammar
  | edit _ => .edit
  | path _ => .path
  | registry _ => .registry
  | misfit _ | document _ | slot _ | record => .document
  | settings _ => .settings
  | file => .file
  | stated area _ => area

/-- The wording of a fault. -/
def message : Fault → String
  | grammar error => error.message
  | edit error => error.message
  | path error => error.message
  | registry error => error.message
  | misfit error => error.message
  | document error => error.fault.message
  | slot span => s!"text slot {span} no longer fits the source document"
  | record => "malformed diagnostic record"
  | settings error => error.message
  | file => "file cannot be read or written"
  | stated _ message => message

/-- Show a fault with its area. -/
def render (fault : Fault) : String :=
  s!"{fault.area.title}: {fault.message}"

/-- Where in the input the fault lies. -/
def span? : Fault → Option Span
  | grammar error => error.span?
  | document error => some error.span
  | _ => none

/-- What could be done about a fault. -/
def help? : Fault → Option String
  | grammar error => error.help?
  | registry error => error.help?
  | document error => error.fault.help?
  | _ => none

/-- The input is to blame. -/
def isInput (fault : Fault) : Bool :=
  fault.area = .document

end Fault

end Retrace
