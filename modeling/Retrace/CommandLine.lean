import Retrace.CommandLine.Arguments
import Retrace.Record
import Retrace.Session
import Retrace.Settings

/-!
# The command line

`CommandLine.run` carries out what the arguments ask for. It reads and writes files only through the
operations it is given, so it can be run on real files as well as on a table of texts. Diagnostics
are written as records; those about a model or query that is mapped go to the error output.
-/

namespace Retrace

/-- What becomes of the request to read a file. -/
inductive Reading where
  /-- There is no such file. -/
  | absent
  /-- It is a directory. -/
  | directory
  /-- The file cannot be read, or is not a text. -/
  | unreadable
  /-- The text of the file. -/
  | text (text : Text)
  deriving DecidableEq, Repr

/-- Access to files. -/
structure Files (m : Type → Type) where
  /-- Read the file at a path. -/
  read : (path : String) → m Reading
  /-- Write the file at a path, and say whether that was possible. -/
  write : (path : String) → Text → m Bool

/-- What a run prints, and why it fails, if so. -/
structure Report where
  /-- What is printed. -/
  output : Text := []
  /-- What is printed on the error output. -/
  errors : Text := []
  /-- Why the run fails. -/
  fault : Option Fault := none
  deriving DecidableEq, Repr

namespace CommandLine

variable {m : Type → Type} [Monad m]

/-- Read a file that has to be a text. -/
def readText (files : Files m) (path : String) : ExceptT Fault m Text := do
  match ← (files.read path : m Reading) with
  | .text text => return text
  | .absent | .directory | .unreadable => throw .file

/-- Read the configuration in a file that was named. -/
def readSettings (files : Files m) (path : String) : ExceptT Fault m Settings := do
  match ← (files.read path : m Reading) with
  | .absent => throw (.settings (.missing path))
  | .directory | .unreadable => throw .file
  | .text text =>
    match Settings.read? text with
    | some settings => return settings
    | none => throw (.settings (.invalidFile path))

/-- Read the configuration: from the file that is named, or from the one with the usual name if it
exists. -/
def settings (files : Files m) (config : Option String) : ExceptT Fault m Settings := do
  match config with
  | some path => readSettings files path
  | none =>
    match ← (files.read Settings.fileName : m Reading) with
    | .absent | .directory => return {}
    | .unreadable | .text _ => readSettings files Settings.fileName

/-- Write a text to a file, or else print it. -/
def deliver (files : Files m) (path? : Option String) (text : Text) : ExceptT Fault m Text := do
  match path? with
  | none => return text
  | some path =>
    if ← (files.write path text : m Bool) then return [] else throw .file

/-- Carry out a command in a session. -/
def perform (files : Files m) (session : Session) (command : Command) : ExceptT Fault m Report := do
  match command with
  | .map model output? =>
    let (result, _) := session.mapModel (← readText files model)
    let mapped ← liftExcept result
    let output ← deliver files output? mapped.text
    return { output, errors := Record.writeLines mapped.diagnostics }
  | .backMap model diagnostics =>
    let (result, session) := session.mapModel (← readText files model)
    let _ ← liftExcept result
    match Record.readLines? (← readText files diagnostics) with
    | none => throw .record
    | some records => return { output := Record.writeLines (records.filterMap session.retrace?) }
  | .query text =>
    let (result, _) := session.mapQuery text.toList
    let mapped ← liftExcept result
    return { output := mapped.text ++ ['\n'], errors := Record.writeLines mapped.diagnostics }
where
  /-- A fault of the session is a fault of the run. -/
  liftExcept (result : Except Fault Mapped) : ExceptT Fault m Mapped :=
    match result with
    | .ok mapped => return mapped
    | .error fault => throw fault

/-- Carry out what the arguments ask for. -/
def run (files : Files m) (arguments : Arguments) : m Report := do
  let performed : ExceptT Fault m Report := do
    let settings ← settings files arguments.config
    match Session.ofIds .standard settings.extensions with
    | .error error => throw (.registry error)
    | .ok session => perform files session arguments.command
  match ← performed.run with
  | .ok report => return report
  | .error fault => return { fault := some fault }

end CommandLine

end Retrace
