import Retrace.Pattern.Reader.Depth
import Retrace.Pattern.Reader.Escape

/-!
# Bracket expressions

A bracket expression lists characters, ranges, classes and nested bracket expressions, may start
with a circumflex that negates it, and may join such lists by the operators `&&`, `--` and `~~`,
which bind alike and to the left. `Bracket.read?` reads one from behind its opening bracket.
-/

namespace Retrace.Pattern.Bracket

/-- An operator between two lists of a bracket expression. -/
inductive Operator where
  /-- What both lists hold. -/
  | inter
  /-- What the first list holds and the second does not. -/
  | diff
  /-- What exactly one list holds. -/
  | symmDiff

namespace Operator

/-- Apply an operator to two sets. -/
def apply : Operator → CharSet → CharSet → CharSet
  | inter, a, b => a.inter b
  | diff, a, b => a.diff b
  | symmDiff, a, b => a.symmDiff b

end Operator

/-- A bracket expression that has not been closed yet. -/
structure Level where
  /-- It began with a circumflex. -/
  negated : Bool
  /-- The operator to the left of the current list, with everything before it. -/
  pending : Option (Nested CharSet × Operator) := none
  /-- What the current list holds so far, the latest first. -/
  listed : List (Nested CharSet) := []

namespace Level

/-- Add a set to the current list. -/
def add (level : Level) (chars : CharSet) : Level :=
  { level with listed := ⟨chars, 0⟩ :: level.listed }

/-- Everything so far, without the negation. Operators work on sets with all case variants. -/
def joined? (level : Level) (flags : Flags) : Option (Nested CharSet) := do
  let list ← Nested.join? level.listed .unions
  match level.pending with
  | none => return list
  | some (left, operator) =>
    (Nested.mk list.value (max left.depth list.depth)).wrap? fun right =>
      operator.apply (flags.close left.value) (flags.close right)

/-- Start a new list behind an operator. -/
def operate? (level : Level) (flags : Flags) (operator : Operator) : Option Level := do
  return { negated := level.negated, pending := some (← level.joined? flags, operator) }

/-- The set that the closed expression stands for. -/
def close? (level : Level) (flags : Flags) : Option (Nested CharSet) := do
  let joined ← level.joined? flags
  let chars ← flags.negate? level.negated (flags.close joined.value)
  joined.wrap? fun _ => chars

end Level

/-- Read a named ASCII class from behind its opening bracket, if one stands there. -/
def namedClass? (text : Text) : Option (Bool × CharSet × Text) :=
  match text with
  | ':' :: rest => do
    let (negated, rest) := match rest with
      | '^' :: name => (true, name)
      | name => (false, name)
    let name := rest.takeWhile (· ≠ ':')
    match rest.drop name.length with
    | ':' :: ']' :: behind => return (negated, ← Class.ofName? name, behind)
    | _ => none
  | _ => none

/-- Read what follows an opening bracket: the circumflex, hyphens and a closing bracket that stand
for themselves there. -/
def opening? (flags : Flags) (text : Text) : Option (Level × Text) :=
  match flags.skip text with
  | '^' :: rest =>
    let text := flags.skip rest
    hyphens text.length { negated := true } text
  | text => hyphens text.length { negated := false } text
where
  /-- Read leading hyphens, at most `bound` of them, and a leading closing bracket. -/
  hyphens (bound : Nat) (level : Level) (text : Text) : Option (Level × Text) :=
    match bound, text with
    | bound + 1, '-' :: rest => hyphens bound (level.add (.single '-')) (flags.skip rest)
    | _, ']' :: rest =>
      if level.listed.isEmpty then some (level.add (.single ']'), flags.skip rest)
      else some (level, text)
    | _, [] => none
    | _, _ => some (level, text)

/-- The first character of a text that is neither a blank nor the mark of a comment; if there is
none, the first character of all. What stands in a comment counts. -/
def glance (text : Text) : Option Char :=
  (go false text).or text.head?
where
  /-- Look for the character; `comment` tells whether a mark has been passed. -/
  go (comment : Bool) : Text → Option Char
    | [] => none
    | c :: rest =>
      if Text.isBlank c then go comment rest
      else if !comment && c = '#' then go true rest
      else some c

/-- Read one character or class. -/
def item? (flags : Flags) (text : Text) : Option (Escape × Text) :=
  match text with
  | '\\' :: rest => Escape.read? flags rest
  | c :: rest => some (.char c, rest)
  | [] => none

/-- A character may stand in a bracket expression. -/
def isListable (flags : Flags) (c : Char) : Bool :=
  flags.unicode || c.toNat < 128

/-- Read one character, class or range. A hyphen makes a range unless a closing bracket or another
hyphen follows. -/
def listed? (flags : Flags) (text : Text) : Option (CharSet × Text) := do
  let (first, behind) ← item? flags text
  let behind := flags.skip behind
  let range? : Option Text := match behind with
    | '-' :: rest =>
      let next := if flags.verbose then glance rest else rest.head?
      if next = some ']' ∨ next = some '-' then none else some (flags.skip rest)
    | _ => none
  match range? with
  | some text =>
    let (last, behind) ← item? flags text
    match first, last with
    | .char first, .char last =>
      if first ≤ last ∧ isListable flags last then return (.range first last, behind) else none
    | _, _ => none
  | none =>
    match first with
    | .char c => if isListable flags c then return (.single c, behind) else none
    | .set chars => return (chars, behind)
    | .look _ => none

/-- Read the rest of a bracket expression, in at most `bound` steps; `outer` holds the expressions
around it that are still open. -/
def readFrom? (flags : Flags) : (bound : Nat) → (level : Level) → (outer : List Level) → Text →
    Option (Nested CharSet × Text)
  | 0, _, _, _ => none
  | bound + 1, level, outer, text => do
    match flags.skip text with
    | [] => none
    | '[' :: rest =>
      match namedClass? rest with
      | some (negated, chars, behind) =>
        let chars ← flags.negate? negated (flags.close chars)
        readFrom? flags bound (level.add chars) outer behind
      | none =>
        let (inner, behind) ← opening? flags rest
        if nestLimit ≤ outer.length then none
        else readFrom? flags bound inner (level :: outer) behind
    | ']' :: rest =>
      let closed ← level.close? flags
      match outer with
      | [] => return (closed, rest)
      | around :: outer =>
        readFrom? flags bound { around with listed := closed :: around.listed } outer rest
    | '&' :: '&' :: rest => readFrom? flags bound (← level.operate? flags .inter) outer rest
    | '-' :: '-' :: rest => readFrom? flags bound (← level.operate? flags .diff) outer rest
    | '~' :: '~' :: rest => readFrom? flags bound (← level.operate? flags .symmDiff) outer rest
    | text =>
      let (chars, behind) ← listed? flags text
      readFrom? flags bound (level.add chars) outer behind

/-- Read a bracket expression from behind its opening bracket. -/
def read? (flags : Flags) (text : Text) : Option (Nested CharSet × Text) := do
  let (level, behind) ← opening? flags text
  readFrom? flags (text.length + 1) level [] behind

end Retrace.Pattern.Bracket
