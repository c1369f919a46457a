import Retrace.CommandLine

/-!
# The program

Files are read and written here, and nowhere else.
-/

namespace Retrace.Program

/-- Read the file at a path. -/
def readFile (path : String) : IO Reading := do
  try
    let bytes ← IO.FS.readBinFile path
    match String.fromUTF8? bytes with
    | some text => return .text text.toList
    | none => return .unreadable
  catch
    | .noFileOrDirectory .. => return .absent
    | .inappropriateType .. => return .directory
    | _ => return .unreadable

/-- Write the file at a path. -/
def writeFile (path : String) (text : Text) : IO Bool := do
  try
    IO.FS.writeBinFile path (String.ofList text).toUTF8
    return true
  catch _ => return false

/-- The files of the system. -/
def files : Files IO where
  read := readFile
  write := writeFile

/-- How the program is used. -/
def usage : String :=
  "Rewrites extended models and queries for the model-checking engine.\n\n" ++
  "Usage: uppaal-mapper [OPTIONS] <COMMAND>\n\n" ++
  "Commands:\n" ++
  "  map <MODEL> [-o <OUTPUT>]         Map a model and print it\n" ++
  "  back-map <MODEL> <DIAGNOSTICS>    Map a model, then map diagnostics on the result\n" ++
  "                                    back to it\n" ++
  "  query <TEXT>                      Map a query bar formula and print it\n\n" ++
  "Options:\n" ++
  "  -c, --config <CONFIG>             Path to configuration file (TOML)\n" ++
  "      --log-level <LOG_LEVEL>       Log level (off, error, warn, info, debug, trace)\n" ++
  "  -h, --help                        Print help\n" ++
  "  -V, --version                     Print version\n"

/-- Say how the program is used. -/
def explain : Usage → IO Unit
  | .help => IO.print usage
  | .version => IO.println "uppaal-mapper 0.1.0"
  | .wrong => IO.eprint usage

end Retrace.Program

open Retrace in
/-- Carry out what the arguments ask for. -/
def main (arguments : List String) : IO UInt32 := do
  match Arguments.read (arguments.map String.toList) with
  | .error usage =>
    Program.explain usage
    return usage.exitCode.toUInt32
  | .ok arguments =>
    let report ← CommandLine.run Program.files arguments
    IO.print (String.ofList report.output)
    IO.eprint (String.ofList report.errors)
    match report.fault with
    | none => return 0
    | some fault =>
      IO.eprintln fault.render
      return 1
