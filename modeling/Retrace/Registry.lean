import Retrace.Extension.ArrayInit
import Retrace.Extension.HiddenProcesses
import Retrace.Extension.TextualQuantifiers

/-!
# The registry of extensions

A registry knows extensions by the names under which they were registered, each name once.
-/

namespace Retrace

/-- Extensions by name. -/
structure Registry where
  /-- Names and extensions, in ascending order of the names. -/
  entries : List (String × Extension) := []

namespace Registry

/-- The names in ascending order. -/
def ids (registry : Registry) : List String :=
  registry.entries.map Prod.fst

/-- Number of extensions. -/
def size (registry : Registry) : Nat :=
  registry.entries.length

/-- Put an extension where its name belongs. -/
def insert (id : String) (extension : Extension) :
    List (String × Extension) → List (String × Extension)
  | [] => [(id, extension)]
  | (other, known) :: later =>
    if id < other then (id, extension) :: (other, known) :: later
    else (other, known) :: insert id extension later

/-- Register an extension under a name. -/
def register (registry : Registry) (id : String) (extension : Extension) :
    Except RegistryError Registry :=
  if registry.ids.contains id then .error (.taken id)
  else .ok ⟨insert id extension registry.entries⟩

/-- Register extensions up to the first whose name is taken; say which that is. -/
def registerAll : List Extension → Registry → Registry × Option RegistryError
  | [], registry => (registry, none)
  | extension :: later, registry =>
    match registry.register extension.id extension with
    | .ok registry => registerAll later registry
    | .error error => (registry, some error)

/-- The extension with a name. -/
def find (registry : Registry) (id : String) : Except RegistryError Extension :=
  match registry.entries.lookup id with
  | some extension => .ok extension
  | none => .error (.unknown id registry.ids)

/-- The extensions of the library. -/
def builtins : List Extension :=
  [ArrayInit.extension, TextualQuantifiers.extension, HiddenProcesses.extension]

/-- The registry that knows the extensions of the library. -/
def standard : Registry :=
  (registerAll builtins {}).1

end Registry

end Retrace
