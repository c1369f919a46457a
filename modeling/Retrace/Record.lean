import Retrace.Diagnostic
import Retrace.Record.Value
import Retrace.Text.Blank

/-!
# Diagnostic records

On the wire a diagnostic is one JSON object on a line of its own. Its fields are `path`, the four
numbers of the range, `msg` and `ctx`; severity and origin are not sent. The reader takes the fields
in any order, skips others, and lets the context be missing; it also takes the list of the values in
the order in which they are written.
-/

namespace Retrace

namespace Record

/-- Line and column numbers are below two to the power of 64. -/
def numberLimit : Nat := 18446744073709551616

/-- Fields of a record. -/
inductive Field where
  /-- The path. -/
  | path
  /-- The line where the range begins. -/
  | startLine
  /-- The column where the range begins. -/
  | startColumn
  /-- The line where the range has ended. -/
  | stopLine
  /-- The column where the range has ended. -/
  | stopColumn
  /-- The message. -/
  | message
  /-- The context. -/
  | context
  deriving DecidableEq, Repr

namespace Field

/-- All fields, in the order in which they are written. -/
def all : List Field :=
  [path, startLine, startColumn, stopLine, stopColumn, message, context]

/-- The name of a field. -/
def name : Field → String
  | path => "path"
  | startLine => "begln"
  | startColumn => "begcol"
  | stopLine => "endln"
  | stopColumn => "endcol"
  | message => "msg"
  | context => "ctx"

/-- The field with a name. -/
def ofName? (name : Text) : Option Field :=
  all.find? fun field => field.name.toList = name

/-- The field holds a number. -/
def isNumber : Field → Bool
  | startLine | startColumn | stopLine | stopColumn => true
  | path | message | context => false

end Field

/-- The value of a field. -/
inductive Value where
  /-- A text. -/
  | text (text : Text)
  /-- A number. -/
  | number (number : Nat)
  deriving DecidableEq, Repr

/-- The values read so far. -/
abbrev Values := List (Field × Value)

namespace Values

/-- The text of a field. -/
def text? (values : Values) (field : Field) : Option Text :=
  match values.lookup field with
  | some (.text text) => some text
  | _ => none

/-- The number in a field. -/
def number? (values : Values) (field : Field) : Option Nat :=
  match values.lookup field with
  | some (.number number) => some number
  | _ => none

/-- The diagnostic with these values; only the context may be missing. -/
def diagnostic? (values : Values) : Option Diagnostic := do
  let path ← values.text? .path
  let startLine ← values.number? .startLine
  let startColumn ← values.number? .startColumn
  let stopLine ← values.number? .stopLine
  let stopColumn ← values.number? .stopColumn
  let message ← values.text? .message
  return {
    path := String.ofList path
    range := ⟨⟨startLine, startColumn⟩, ⟨stopLine, stopColumn⟩⟩
    message := String.ofList message
    context := String.ofList ((values.text? .context).getD []) }

end Values

/-- Read the value of a field. -/
def value? (field : Field) (text : Text) : Option (Value × Text) :=
  let text := skipBlanks text
  if field.isNumber then
    (natural? numberLimit text).map fun (number, rest) => (.number number, rest)
  else match text with
    | '"' :: rest => (unquote? rest).map fun (read, rest) => (.text read, rest)
    | _ => none

/-- Read one field with its name and add it to the values; a field stands at most once. -/
def field? (values : Values) (text : Text) : Option (Values × Text) :=
  match text with
  | '"' :: rest => do
    let (name, rest) ← unquote? rest
    match skipBlanks rest with
    | ':' :: rest =>
      match Field.ofName? name with
      | some field =>
        if (values.lookup field).isSome then none
        else
          let (value, rest) ← value? field rest
          return ((field, value) :: values, rest)
      | none => return (values, ← skipValue? rest)
    | _ => none
  | _ => none

/-- Read fields up to the closing brace, at most `bound` of them. -/
def fields? : (bound : Nat) → Values → Text → Option (Values × Text)
  | 0, _, _ => none
  | bound + 1, values, text =>
    match field? values (skipBlanks text) with
    | some (values, rest) =>
      match skipBlanks rest with
      | ',' :: rest => fields? bound values rest
      | '\x7d' :: rest => some (values, rest)
      | _ => none
    | none => none

/-- Read values up to the closing bracket, one for each of the given fields; the last one may be
missing. -/
def items? : List Field → Values → Text → Option (Values × Text)
  | [], _, _ => none
  | field :: later, values, text =>
    match value? field text with
    | some (value, rest) =>
      match skipBlanks rest, later with
      | ',' :: rest, _ :: _ => items? later ((field, value) :: values) rest
      | ']' :: rest, _ => some ((field, value) :: values, rest)
      | _, _ => none
    | none => none

/-- Read all values of a record and what follows it. -/
def values? (text : Text) : Option (Values × Text) :=
  match text with
  | '\x7b' :: rest =>
    match skipBlanks rest with
    | '\x7d' :: rest => some ([], rest)
    | rest => fields? text.length [] rest
  | '[' :: rest => items? Field.all [] rest
  | _ => none

/-- Read a record that is the whole text. -/
def read? (text : Text) : Option Diagnostic := do
  let (values, rest) ← values? (skipBlanks (Text.trim text))
  if (skipBlanks rest).isEmpty then values.diagnostic? else none

/-- The value of a field of a diagnostic. -/
def valueOf (diagnostic : Diagnostic) : Field → Value
  | .path => .text diagnostic.path.toList
  | .startLine => .number diagnostic.range.start.line
  | .startColumn => .number diagnostic.range.start.column
  | .stopLine => .number diagnostic.range.stop.line
  | .stopColumn => .number diagnostic.range.stop.column
  | .message => .text diagnostic.message.toList
  | .context => .text diagnostic.context.toList

/-- Write the value of a field. -/
def writeValue : Value → Text
  | .text text => quote text
  | .number number => Nat.toDigits 10 number

/-- Write a field with its name. -/
def writeField (diagnostic : Diagnostic) (field : Field) : Text :=
  quote field.name.toList ++ ':' :: writeValue (valueOf diagnostic field)

/-- Write a diagnostic as a record without a line feed. -/
def write (diagnostic : Diagnostic) : Text :=
  '\x7b' :: (List.intercalate [','] (Field.all.map (writeField diagnostic))) ++ ['\x7d']

/-- Write diagnostics, each on a line of its own. -/
def writeLines (diagnostics : List Diagnostic) : Text :=
  diagnostics.flatMap fun diagnostic => write diagnostic ++ ['\n']

/-- Read diagnostics, each on a line of its own; blank lines are skipped. -/
def readLines? (text : Text) : Option (List Diagnostic) :=
  ((text.splitOn '\n').filter fun line => !Text.isBlankText line).mapM read?

end Record

end Retrace
