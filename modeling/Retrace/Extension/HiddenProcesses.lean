import Retrace.Extension

/-!
# Hidden processes

The extension `hidden-processes` takes the processes of generated templates off the list that a
simulator shows. The names of generated templates begin with two low lines.
-/

namespace Retrace.HiddenProcesses

/-- The name of the extension. -/
def id : String := "hidden-processes"

/-- How the names of hidden templates begin. -/
def mark : Text := ['_', '_']

/-- The process belongs to a hidden template. -/
def isHidden (process : ListedProcess) : Bool :=
  mark.isPrefixOf process.template.toList

/-- Take the hidden processes off a list. -/
def visible (processes : List ListedProcess) : List ListedProcess :=
  processes.filter fun process => !isHidden process

/-- The extension. -/
def extension : Extension :=
  { id, reviseProcesses := visible }

end Retrace.HiddenProcesses
