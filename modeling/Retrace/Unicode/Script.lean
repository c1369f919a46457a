import Retrace.Unicode.Category
import Retrace.Unicode.Script.Table

/-!
# Scripts

Every assigned character belongs to one script; `Common` and `Inherited` hold the characters that
are shared. Some characters are used in several scripts, which their script extensions list.
-/

namespace Retrace.Unicode.Script

/-- The characters that belong to a script. -/
def set (name : String) : CharSet :=
  if name = "Common" then
    (Category.assigned.diff (Category.set "Co")).diff table.all
  else table.set name

/-- The characters that are used in a script. Those that are used in listed scripts alone are not
used in the shared ones. -/
def extensionSet (name : String) : CharSet :=
  if name = "Common" ∨ name = "Inherited" then (set name).diff extensionTable.all
  else (set name).union (extensionTable.set name)

end Retrace.Unicode.Script
