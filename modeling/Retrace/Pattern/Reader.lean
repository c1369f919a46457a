import Retrace.Pattern.Reader.Bracket
import Retrace.Text.NameChar

/-!
# Reading patterns

Patterns are written in the customary notation of regular expressions: alternatives, groups,
repetitions with their lazy forms, bracket expressions, escapes, anchors and flags. There are no
look-around conditions and no references to groups. `Pattern.readTerm?` reads the term that a text
stands for and gives nothing when the text is not a pattern.

Groups may nest, so the reader keeps the groups that are still open on a stack; every step takes at
least one character.
-/

namespace Retrace.Pattern

/-- A part of a sequence. -/
structure Part where
  /-- What the part stands for. -/
  term : Term
  /-- The part may be repeated. A change of flags may not. -/
  repeatable : Bool := true

/-- A group that has not been closed yet. -/
structure Group where
  /-- The flags to go back to behind the group. -/
  outerFlags : Flags := {}
  /-- The number of the group, if it has one. -/
  number? : Option Nat := none
  /-- The finished alternatives, the latest first. -/
  branches : List (Nested Term) := []
  /-- The parts of the current alternative, the latest first. -/
  parts : List (Nested Part) := []

namespace Group

/-- The current alternative. -/
def branch? (group : Group) : Option (Nested Term) :=
  Nested.join? group.parts fun parts => .sequence (parts.reverse.map Part.term)

/-- Start another alternative. -/
def alternate? (group : Group) : Option Group := do
  return { group with branches := (← group.branch?) :: group.branches, parts := [] }

/-- All alternatives. -/
def body? (group : Group) : Option (Nested Term) := do
  Nested.join? ((← group.branch?) :: group.branches) fun branches => .alternatives branches.reverse

/-- The closed group as a part. -/
def close? (group : Group) : Option (Nested Part) := do
  (← group.body?).wrap? fun body =>
    match group.number? with
    | some number => ⟨.group number body, true⟩
    | none => ⟨body, true⟩

end Group

/-- The state of the reader. -/
structure Reading where
  /-- The flags in force. -/
  flags : Flags := {}
  /-- The innermost open group. -/
  group : Group := {}
  /-- The open groups around it, the innermost first. -/
  outer : List Group := []
  /-- The number of groups with a number so far. -/
  numbered : Nat := 0
  /-- The names given to groups so far. -/
  names : List Text := []

namespace Reading

/-- Add a part to the current alternative of the innermost group. -/
def add (reading : Reading) (part : Nested Part) : Reading :=
  { reading with group := { reading.group with parts := part :: reading.group.parts } }

/-- Add a term to the current alternative of the innermost group. -/
def addTerm (reading : Reading) (term : Term) : Reading :=
  reading.add ⟨⟨term, true⟩, 0⟩

/-- Put flags into force. -/
def setFlags (reading : Reading) (flags : Flags) : Reading :=
  { reading with flags }.add ⟨⟨.empty, false⟩, 0⟩

/-- Open a group with the given flags in force inside, unless too many are open. -/
def openGroup? (reading : Reading) (flags : Flags) (number? : Option Nat) : Option Reading :=
  if nestLimit ≤ reading.outer.length then none
  else some { reading with
    flags
    group := { outerFlags := reading.flags, number? }
    outer := reading.group :: reading.outer }

/-- Open a group with a number. -/
def openNumbered? (reading : Reading) : Option Reading :=
  { reading with numbered := reading.numbered + 1 }.openGroup? reading.flags
    (some (reading.numbered + 1))

/-- Close the innermost group, if it is not the whole pattern. -/
def closeGroup? (reading : Reading) : Option Reading := do
  let around :: outer := reading.outer | none
  let part ← reading.group.close?
  return { reading with
    flags := reading.group.outerFlags
    group := { around with parts := part :: around.parts }
    outer }

/-- Start another alternative. -/
def alternate? (reading : Reading) : Option Reading := do
  return { reading with group := ← reading.group.alternate? }

/-- Repeat the latest part. -/
def repeat? (reading : Reading) (least : Nat) (most : Option Nat) (lazyMark : Bool) :
    Option Reading := do
  let part :: earlier := reading.group.parts | none
  if !part.value.repeatable then none
  else
    let greedy := lazyMark == reading.flags.swapGreed
    let part ← part.wrap? fun part => ⟨.repetition part.term least most greedy, true⟩
    return { reading with group := { reading.group with parts := part :: earlier } }

end Reading

/-- Split off the question mark that makes a repetition lazy. -/
def lazyMark (text : Text) : Bool × Text :=
  match text with
  | '?' :: rest => (true, rest)
  | _ => (false, text)

/-- Counts of repetitions are below two to the power of 32. -/
def countLimit : Nat := 4294967296

/-- Read digits, with what is skipped between them; `taken` have been read before, the latest
first. There are at most `bound` characters. -/
def digitsFrom (flags : Flags) (taken : Text) : (bound : Nat) → Text → Text × Text
  | bound + 1, c :: rest =>
    if c.isDigit then digitsFrom flags (c :: taken) bound (flags.skip rest)
    else (taken.reverse, c :: rest)
  | _, text => (taken.reverse, text)

/-- Pass blanks, with what is skipped behind them. -/
def passBlanks (flags : Flags) (text : Text) : Text :=
  if flags.verbose then flags.skip text else text.dropWhile Text.isBlank

/-- Read a count, with blanks around it. -/
def count? (flags : Flags) (text : Text) : Option Nat × Text :=
  let (digits, behind) := digitsFrom flags [] text.length (text.dropWhile Text.isBlank)
  ((Text.digits? 10 digits).filter (· < countLimit), passBlanks flags behind)

/-- Read the counts of a repetition from behind the opening brace. -/
def counts? (flags : Flags) (text : Text) : Option ((Nat × Option Nat) × Text) := do
  let (least?, rest) := count? flags (flags.skip text)
  let least ← least?
  match rest with
  | '\x7d' :: behind => return ((least, some least), flags.skip behind)
  | ',' :: rest =>
    match flags.skip rest with
    | '\x7d' :: behind => return ((least, none), flags.skip behind)
    | rest =>
      let (most?, rest) := count? flags rest
      let most ← most?
      match rest with
      | '\x7d' :: behind =>
        if least ≤ most then return ((least, some most), flags.skip behind) else none
      | _ => none
  | _ => none

/-- Read flags up to the mark behind them; `seen` holds the letters read so far. A hyphen stands at
most once and never last. -/
def flags? (flags : Flags) (value : Bool) (seen : List Char) : Text → Option (Flags × Bool × Text)
  | [] => none
  | c :: rest =>
    if c = ':' ∨ c = ')' then
      if seen.head? = some '-' then none else some (flags, c = ':', rest)
    else if c ∈ seen then none
    else if c = '-' then flags? flags false (c :: seen) rest
    else match flags.set? value c with
      | some flags => flags? flags value (c :: seen) rest
      | none => none

/-- Read the name of a group up to the closing angle bracket. -/
def groupName? (text : Text) : Option (Text × Text) :=
  let name := text.takeWhile (· ≠ '>')
  let isFirst := fun c => c = '_' || Text.isAlphabetic c
  let isLater := fun c => Text.isNameChar c || c ∈ ['.', '[', ']']
  match name, text.drop name.length with
  | first :: later, _ :: behind =>
    if isFirst first && later.all isLater then some (name, behind) else none
  | _, _ => none

/-- Open a group with a name, which no other group has. -/
def openNamed? (reading : Reading) (text : Text) : Option (Reading × Text) := do
  let (name, behind) ← groupName? text
  if reading.names.contains name then none
  else return (← { reading with names := name :: reading.names }.openNumbered?, behind)

/-- Read what follows an opening parenthesis: the start of a group, or a change of flags. -/
def opening? (reading : Reading) (text : Text) : Option (Reading × Text) :=
  match reading.flags.skip text with
  | '?' :: 'P' :: '<' :: rest => openNamed? reading rest
  | '?' :: '<' :: '=' :: _ => none
  | '?' :: '<' :: '!' :: _ => none
  | '?' :: '<' :: rest => openNamed? reading rest
  | '?' :: ')' :: _ => none
  | '?' :: rest => do
    let (flags, isGroup, behind) ← flags? reading.flags true [] rest
    if isGroup then return (← reading.openGroup? flags none, behind)
    else return (reading.setFlags flags, behind)
  | rest => reading.openNumbered?.map fun reading => (reading, rest)

/-- Read one step: a part, a repetition, a bar, or the start or end of a group. -/
def step? (reading : Reading) (c : Char) (rest : Text) : Option (Reading × Text) :=
  let flags := reading.flags
  let repeated := fun (least : Nat) (most : Option Nat) (behind : Text) =>
    let (lazily, behind) := lazyMark behind
    (reading.repeat? least most lazily).map fun reading => (reading, behind)
  match c with
  | '(' => opening? reading rest
  | ')' => reading.closeGroup?.map fun reading => (reading, rest)
  | '|' => reading.alternate?.map fun reading => (reading, rest)
  | '[' => (Bracket.read? flags rest).map fun (found, behind) =>
      (reading.add ⟨⟨.ofSet found.value, true⟩, found.depth⟩, behind)
  | '?' => repeated 0 (some 1) rest
  | '*' => repeated 0 none rest
  | '+' => repeated 1 none rest
  | '\x7b' => do
    let ((least, most), behind) ← counts? flags rest
    repeated least most behind
  | '.' => flags.dot?.map fun term => (reading.addTerm term, rest)
  | '^' => some (reading.addTerm (.look flags.lineStart), rest)
  | '$' => some (reading.addTerm (.look flags.lineStop), rest)
  | '\\' => do
    let (escape, behind) ← Escape.read? flags rest
    let term := match escape with
      | .char c => flags.char c
      | .set chars => .ofSet chars
      | .look condition => .look condition
    return (reading.addTerm term, behind)
  | c => some (reading.addTerm (flags.char c), rest)

/-- Read the rest of a pattern, in at most `bound` steps. -/
def readFrom? : (bound : Nat) → Reading → Text → Option Term
  | bound, reading, text =>
    match bound, reading.flags.skip text with
    | _, [] => if reading.outer.isEmpty then reading.group.body?.map Nested.value else none
    | 0, _ => none
    | bound + 1, c :: rest =>
      match step? reading c rest with
      | some (reading, behind) => readFrom? bound reading behind
      | none => none

/-- Read the term that a text stands for. -/
def readTerm? (text : Text) : Option Term :=
  readFrom? text.length {} text

end Retrace.Pattern
