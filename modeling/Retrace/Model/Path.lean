import Retrace.Model.Kind
import Retrace.Text.Digits

/-!
# Paths of model elements

A path names an element by the kinds on the way from the root to it, one segment for each. Segments
of kinds that repeat carry a number, counted from one among the elements of that kind inside the
same element. `Path.render` shows a path as in `/nta/template[2]/declaration`; `Path.read` reads
such a text and says what is wrong with it otherwise.
-/

namespace Retrace

/-- One step of a path. -/
structure Segment where
  /-- The kind of the element. -/
  kind : NodeKind
  /-- Its number, if it has one. -/
  index : Option Nat
  deriving DecidableEq, Repr

namespace Segment

/-- Show a segment as the name of its kind and the number in brackets. -/
def render (segment : Segment) : Text :=
  segment.kind.tag.toList ++
    match segment.index with
    | some index => '[' :: Nat.toDigits 10 index ++ [']']
    | none => []

end Segment

/-- Why a text is not a path. -/
inductive PathError where
  /-- The path does not begin with a slash. -/
  | noSlash (path : Text)
  /-- A bracket is not closed at the end of its segment. -/
  | unclosedIndex (segment path : Text)
  /-- What stands in brackets is not a number. -/
  | badIndex (index path : Text)
  /-- A number is zero. -/
  | zeroIndex (path : Text)
  /-- A segment does not name a kind of element. -/
  | unknownKind (name path : Text)
  /-- A segment of a kind that repeats has no number. -/
  | missingIndex (segment path : Text)
  /-- A segment of a kind that stands once has a number. -/
  | needlessIndex (segment path : Text)
  /-- The first segment is not the root. -/
  | notAtRoot (path : Text)
  deriving DecidableEq, Repr

namespace PathError

/-- Show a piece of a path in quotation marks. -/
def cite (text : Text) : String :=
  s!"'{String.ofList text}'"

/-- The wording of a fault. -/
def message : PathError → String
  | noSlash path => s!"path {cite path} must start with '/'"
  | unclosedIndex segment path => s!"unclosed index in {cite segment} of {cite path}"
  | badIndex index path => s!"bad index {cite index} in {cite path}"
  | zeroIndex path => s!"indices are 1-based in {cite path}"
  | unknownKind name path => s!"unknown node kind {cite name} in {cite path}"
  | missingIndex segment path => s!"segment {cite segment} of {cite path} needs an index"
  | needlessIndex segment path => s!"segment {cite segment} of {cite path} cannot take an index"
  | notAtRoot path => s!"path {cite path} must start at /nta"

end PathError

/-- The address of a model element. -/
structure Path where
  /-- The segments from the root on. -/
  segments : List Segment
  deriving DecidableEq, Repr

namespace Path

/-- The path of the root. -/
def root : Path :=
  ⟨[⟨.nta, none⟩]⟩

/-- The path of an element inside the one at this path. -/
def child (path : Path) (kind : NodeKind) (index : Option Nat) : Path :=
  ⟨path.segments ++ [⟨kind, index⟩]⟩

/-- Number of segments. -/
def length (path : Path) : Nat :=
  path.segments.length

/-- The kinds on the path from the root on. -/
def kinds (path : Path) : List NodeKind :=
  path.segments.map Segment.kind

/-- The last segments of the path have exactly the kinds of `filter`, which may be empty. -/
def endsIn (path : Path) (filter : List NodeKind) : Bool :=
  filter.isSuffixOf path.kinds

/-- The text of a path: every segment behind a slash. -/
def text (path : Path) : Text :=
  path.segments.flatMap fun segment => '/' :: segment.render

/-- Show a path. -/
def render (path : Path) : String :=
  String.ofList path.text

instance : ToString Path := ⟨render⟩

/-- Numbers in paths are below two to the power of 64. -/
def indexLimit : Nat := 18446744073709551616

/-- Read the number of a segment, where `behind` follows the opening bracket. -/
def readIndex (path segment behind : Text) : Except PathError Nat :=
  if behind.getLast? ≠ some ']' then .error (.unclosedIndex segment path)
  else match Text.numeral? 10 indexLimit behind.dropLast with
    | some 0 => .error (.zeroIndex path)
    | some index => .ok index
    | none => .error (.badIndex behind.dropLast path)

/-- Split a segment at its first bracket into the name and the number. -/
def splitSegment (path segment : Text) : Except PathError (Text × Option Nat) :=
  match segment.dropWhile (· ≠ '[') with
  | _ :: behind =>
    (readIndex path segment behind).map fun index => (segment.takeWhile (· ≠ '['), some index)
  | [] => .ok (segment, none)

/-- Read one segment of a path. -/
def readSegment (path segment : Text) : Except PathError Segment :=
  match splitSegment path segment with
  | .error error => .error error
  | .ok (name, index) =>
    match NodeKind.ofTag? name with
    | none => .error (.unknownKind name path)
    | some kind =>
      if kind.repeats = index.isSome then .ok ⟨kind, index⟩
      else if kind.repeats then .error (.missingIndex segment path)
      else .error (.needlessIndex segment path)

/-- Read a path. -/
def read (path : Text) : Except PathError Path :=
  match path with
  | '/' :: rest =>
    match (rest.splitOn '/').mapM (readSegment path) with
    | .error error => .error error
    | .ok segments =>
      if segments.head?.map Segment.kind = some .nta then .ok ⟨segments⟩
      else .error (.notAtRoot path)
  | _ => .error (.noSlash path)

end Path

end Retrace
