import Retrace.Fault
import Retrace.Registry
import Retrace.Settings.Quoted

/-!
# Settings

The configuration says which extensions are run, and in which order. It is a TOML document with at
most one key, `mappers`, whose value is a list of strings. A document that holds anything else is
refused as a whole.
-/

namespace Retrace

/-- The configuration. -/
structure Settings where
  /-- The names of the extensions, in the order in which they are run. -/
  extensions : List String := Registry.builtins.map Extension.id
  deriving DecidableEq, Repr

namespace Settings

/-- The name of the configuration file that is used if none is named. -/
def fileName : String := "uppaal-mapper.toml"

/-- The only key. -/
def key : Text := "mappers".toList

/-- A character of a key without quotation marks. -/
def isKeyChar (c : Char) : Bool :=
  c.isAlphanum || c = '_' || c = '-'

/-- Read a key. -/
def key? (text : Text) : Option (Text × Text) :=
  match text with
  | '"' :: _ | '\'' :: _ => lineString? text
  | _ =>
    let name := text.takeWhile isKeyChar
    if name.isEmpty then none else some (name, text.dropWhile isKeyChar)

/-- Read the strings of a list up to its closing bracket, at most `bound` of them. -/
def items? : (bound : Nat) → Text → Option (List Text × Text)
  | 0, _ => none
  | bound + 1, text =>
    match skipLines? false text with
    | some (']' :: rest) => some ([], rest)
    | some text =>
      match string? text with
      | none => none
      | some (item, rest) =>
        match skipLines? false rest with
        | some (']' :: rest) => some ([item], rest)
        | some (',' :: rest) => (items? bound rest).map fun (items, rest) => (item :: items, rest)
        | _ => none
    | none => none

/-- Read a list of strings. -/
def list? : Text → Option (List Text × Text)
  | '[' :: rest => items? (rest.length + 1) rest
  | _ => none

/-- Nothing but blanks and a comment is left in the first line, and nothing at all behind it. -/
def isFinished (text : Text) : Bool :=
  match text.dropWhile isGap with
  | [] => true
  | c :: rest =>
    (c = '#' || (lineBreak? (c :: rest)).isSome) && skipLines? false (c :: rest) = some []

/-- Read the key and its value. -/
def assignment? (text : Text) : Option (List Text) := do
  let (name, rest) ← key? text
  if name ≠ key then none
  else match rest.dropWhile isGap with
    | '=' :: rest =>
      let (items, rest) ← list? (rest.dropWhile isGap)
      if isFinished rest then some items else none
    | _ => none

/-- The mark that may stand at the beginning of a file. -/
def byteOrderMark : Char := '\ufeff'

/-- Read the configuration. -/
def read? (text : Text) : Option Settings :=
  let text := match text with
    | c :: rest => if c = byteOrderMark then rest else text
    | [] => []
  match skipLines? false text with
  | none => none
  | some [] => some {}
  | some text => (assignment? text).map fun items => { extensions := items.map String.ofList }

/-- Read the configuration or say that it is wrong. -/
def read (text : Text) : Except SettingsError Settings :=
  match read? text with
  | some settings => .ok settings
  | none => .error .invalid

end Settings

end Retrace
