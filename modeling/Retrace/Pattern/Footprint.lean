import Retrace.Pattern.Term
import Retrace.Unicode.Encoding
import Std.Data.HashMap

/-!
# The size of patterns

A pattern is refused when it would take too much room. What counts are two byte machines for the
pattern, one that reads forward and one that reads backward, each of which must fit in ten
mebibytes: a state takes 32 bytes, a range of bytes that a state tells apart another 8, and a way
on from a fork another 4. `Term.fits` measures both without building them.
-/

namespace Retrace.Pattern

open Unicode.Encoding (Form formsOf)

/-- The size of a machine, or of a part of it. -/
structure Footprint where
  /-- The number of states. -/
  states : Nat := 0
  /-- The number of byte ranges that states tell apart. -/
  ranges : Nat := 0
  /-- The number of ways that lead on from forks. -/
  ways : Nat := 0
  deriving Repr

namespace Footprint

/-- The room that a machine takes, in bytes. -/
def bytes (size : Footprint) : Nat :=
  32 * size.states + 8 * size.ranges + 4 * size.ways

/-- The room that a machine may take. -/
def limit : Nat := 10 * 1024 * 1024

/-- The size with another part. -/
def add (size part : Footprint) : Footprint :=
  ⟨size.states + part.states, size.ranges + part.ranges, size.ways + part.ways⟩

/-- The size with another part, if there is room for it. -/
def grow (part : Footprint) (size : Footprint) : Option Footprint :=
  let size := size.add part
  if size.bytes ≤ limit then some size else none

/-- What has been built for a set of characters: states by what they do, and their size. -/
structure Shared where
  /-- The states, by their byte ranges with what follows each. -/
  states : Std.HashMap (List (Nat × Nat × Nat)) Nat := ∅
  /-- Their size. -/
  size : Footprint := {}

/-- The number of a state that does what is asked for; a new one if there is none. -/
def Shared.state (shared : Shared) (ways : List (Nat × Nat × Nat)) : Nat × Shared :=
  match shared.states[ways]? with
  | some index => (index, shared)
  | none =>
    let index := shared.states.size + 1
    (index, ⟨shared.states.insert ways index, shared.size.add ⟨1, ways.length, 0⟩⟩)

/-- Group neighbouring forms that begin with the same byte range. -/
def grouped : List Form → List ((Nat × Nat) × List Form)
  | [] => []
  | [] :: forms => grouped forms
  | (range :: rest) :: forms =>
    match grouped forms with
    | (other, rests) :: groups =>
      if other = range then (range, rest :: rests) :: groups
      else (range, [rest]) :: (other, rests) :: groups
    | [] => [(range, [rest])]

/-- The state that reads one of several forms, which are at most `depth` bytes long. Zero is the
state behind all forms. -/
def formsState : (depth : Nat) → List Form → Shared → Nat × Shared
  | 0, _, shared => (0, shared)
  | depth + 1, forms, shared =>
    if forms.all List.isEmpty then (0, shared)
    else
      let (ways, shared) := (grouped forms).foldl
        (fun (ways, shared) ((first, last), rests) =>
          let (next, shared) := formsState depth rests shared
          ((first, last, next) :: ways, shared)) (([] : List (Nat × Nat × Nat)), shared)
      shared.state ways.reverse

/-- The size of the states that read a character of a set forward. They share their ends. -/
def forwardSet (chars : CharSet) : Footprint :=
  (formsState 4 (formsOf chars) {}).2.size.add ⟨1, 0, 0⟩

/-- The slot of a state that reads a byte range and leads to the state `next`, among a thousand. -/
def slot (next first last : Nat) : Nat :=
  let step := fun (hash : UInt64) (part : Nat) => (hash ^^^ part.toUInt64) * 1099511628211
  (step (step (step 14695981039346656037 next) first) last).toNat % 1000

/-- Add the states that read a form backward and lead to the state `next`; gives the number of
states. A state is shared if it is still remembered: each slot remembers one. -/
def backwardForm (next states : Nat) (slots : Array (Nat × Nat × Nat × Nat)) :
    Form → Nat × Array (Nat × Nat × Nat × Nat)
  | [] => (states, slots)
  | (first, last) :: rest =>
    let place := slot next first last
    let remembered? := slots[place]?.filter fun (next', first', last', _) =>
      next' = next ∧ first' = first ∧ last' = last
    match remembered? with
    | some (_, _, _, state) => backwardForm state states slots rest
    | none =>
      backwardForm states (states + 1)
        (slots.setIfInBounds place (next, first, last, states)) rest

/-- Add the states that read a character of a set backward: a fork, the state behind it, and states
for all forms. -/
def backwardSet (chars : CharSet) (size : Footprint) : Option Footprint :=
  let forms := formsOf chars
  let (states, _) := forms.foldl
    (fun (states, slots) form => backwardForm (size.states + 1) states slots form)
    (size.states + 2, Array.replicate 1000 (0, 0, 0, 0))
  grow ⟨states - size.states, 0, forms.length⟩ size

/-- Add the states that read a character of a set. -/
def measureSet (backward : Bool) (chars : CharSet) (size : Footprint) : Option Footprint :=
  if chars.isAscii then grow ⟨2, chars.ranges.length, 0⟩ size
  else if backward then backwardSet chars size
  else grow (forwardSet chars) size

/-- Split some words, in order, at those that are empty. Empty words at the start count once. -/
def runs (words : List (List Nat)) : List (List (List Nat)) :=
  match words with
  | [] :: words => [] :: split (words.dropWhile List.isEmpty)
  | words => split words
where
  /-- Split at every empty word. -/
  split : List (List Nat) → List (List (List Nat))
    | [] => [[]]
    | [] :: words => [] :: split words
    | word :: words =>
      match split words with
      | run :: others => (word :: run) :: others
      | [] => [[word]]

/-- The different first bytes of some words, with the rests of the words that begin with them. -/
def branches (words : List (List Nat)) : List (List (List Nat)) :=
  (words.filterMap List.head?).eraseDups.map fun first =>
    words.filterMap fun
      | byte :: rest => if byte = first then some rest else none
      | [] => none

/-- The size of the states that read one of several words of at most `depth` bytes, all of which
share their beginnings as far as the order of preference allows. -/
def words : (depth : Nat) → List (List Nat) → Footprint
  | 0, _ => {}
  | depth + 1, list =>
    if list.all List.isEmpty then {}
    else
      let runs := runs list
      let choices := (runs.filter fun run => !run.isEmpty).map branches
      let own := choices.foldl
        (fun size next => size.add ⟨1, if next.length = 1 then 0 else next.length, 1⟩)
        (⟨1, 0, runs.length - 1⟩ : Footprint)
      choices.foldl
        (fun size next => next.foldl (fun size rest => size.add (words depth rest)) size) own

/-- The bytes of the literals, if all of the terms are literals. -/
def literals? (terms : List Term) : Option (List (List Nat)) :=
  terms.mapM fun
    | .literal text => some (text.flatMap fun c => Unicode.Encoding.bytes c.toNat)
    | _ => none

/-- Measure several copies of something. Read forward each takes the same room. -/
def copies (backward : Bool) (body : Footprint → Option Footprint) :
    (count : Nat) → Footprint → Option Footprint
  | 0, size => some size
  | count + 1, size => do
    let next ← body size
    if backward then copies backward body count next
    else
      grow ⟨count * (next.states - size.states), count * (next.ranges - size.ranges),
        count * (next.ways - size.ways)⟩ next

mutual

/-- Add what a term takes. -/
def measure (backward : Bool) : Term → Footprint → Option Footprint
  | .empty, size => grow ⟨1, 0, 0⟩ size
  | .literal text, size => grow ⟨Text.size text, 0, 0⟩ size
  | .set chars, size => measureSet backward chars size
  | .look _, size => grow ⟨1, 0, 0⟩ size
  | .group _ body, size =>
    if backward then measure backward body size
    else do grow ⟨1, 0, 0⟩ (← measure backward body (← grow ⟨1, 0, 0⟩ size))
  | .loop body least most _, size =>
    let body' := fun size => measure backward body size
    match least, most with
    | 0, some 1 => do grow ⟨1, 0, 0⟩ (← body' (← grow ⟨1, 0, 2⟩ size))
    | 0, none =>
      if 0 < body.minLength?.getD 0 then do body' (← grow ⟨1, 0, 2⟩ size)
      else do grow ⟨3, 0, 4⟩ (← body' size)
    | least, none => do grow ⟨1, 0, 2⟩ (← copies backward body' least size)
    | least, some most => do
      let size ← if least = 0 then grow ⟨1, 0, 0⟩ size else copies backward body' least size
      if least = most then return size
      else
        copies backward (fun size => do body' (← grow ⟨1, 0, 2⟩ size)) (most - least)
          (← grow ⟨1, 0, 0⟩ size)
  | .seq items, size => measureSeq backward items size
  | .either branches, size =>
    match literals? branches with
    | some list =>
      let list := if backward then list.map List.reverse else list
      let depth := (list.map List.length).foldl max 0
      grow ((words depth list).add ⟨1, 0, 0⟩) size
    | none => measureEach backward branches 0 size

/-- Add what a sequence takes, from its end on if it is read backward. -/
def measureSeq (backward : Bool) : List Term → Footprint → Option Footprint
  | [], size => some size
  | item :: items, size =>
    if backward then do measure backward item (← measureSeq backward items size)
    else do measureSeq backward items (← measure backward item size)

/-- Add what alternatives take; `done` of them have been added before. A fork and a state behind
it stand after the second one. -/
def measureEach (backward : Bool) : List Term → (done : Nat) → Footprint → Option Footprint
  | [], _, size => some size
  | branch :: branches, done, size => do
    let size ← measure backward branch size
    measureEach backward branches (done + 1)
      (← grow (if done = 1 then ⟨2, 0, 2⟩ else ⟨0, 0, if done = 0 then 0 else 1⟩) size)

end

/-- A machine that reads in a direction fits. A match that may begin anywhere takes a loop in front
of the machine. -/
def machineFits (backward : Bool) (term : Term) : Bool :=
  let isAnchored := term.isAnchored (if backward then .textStop else .textStart) backward
  let start : Footprint := if isAnchored then ⟨1, 0, 0⟩ else ⟨3, 1, 2⟩
  match measure backward (.group 0 term) start with
  | some size => (grow ⟨1, 0, 0⟩ size).isSome
  | none => false

end Footprint

/-- The machines for a term fit in the room that they may take. -/
def Term.fits (term : Term) : Bool :=
  Footprint.machineFits false term && Footprint.machineFits true term

end Retrace.Pattern
