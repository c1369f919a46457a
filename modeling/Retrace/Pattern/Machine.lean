import Retrace.Pattern.Term

/-!
# Machines

A machine reads a text from left to right and keeps, at every place, the states that wait for the
next character, in order of preference. A state that several ways lead to is visited once, by the
most preferred of them, so the work at a place is bounded by the size of the machine. When a match
ends at a place, what is less preferred is dropped, and what is more preferred may still find a
longer one. `Machine.search?` gives the end of the leftmost match; a match ends within the text
(`search?_le`).
-/

namespace Retrace.Pattern

/-- A state of a machine. -/
inductive State where
  /-- Take a character of a set and go on. -/
  | take (chars : CharSet) (next : Nat)
  /-- Go on if a condition holds. -/
  | look (condition : Look) (next : Nat)
  /-- Go on in several ways, preferably an earlier one. -/
  | fork (nexts : List Nat)
  /-- A match ends. -/
  | done
  deriving Repr, Inhabited

/-- States, referred to by number, and the one to start in. -/
structure Machine where
  /-- The states. -/
  states : Array State
  /-- The state to start in. -/
  start : Nat
  /-- A match can only begin at the start of the text. -/
  anchored : Bool
  deriving Repr, Inhabited

namespace Machine

/-- Add a state and give its number. -/
def add (state : State) : StateM (Array State) Nat :=
  fun states => (states.size, states.push state)

/-- Replace the state with a number. -/
def put (index : Nat) (state : State) : StateM (Array State) Unit :=
  fun states => ((), states.setIfInBounds index state)

/-- A fork between going into a repetition and going past it. -/
def choice (greedy : Bool) (into past : Nat) : State :=
  .fork (if greedy then [into, past] else [past, into])

/-- The state from which `text` leads to `next`. -/
def assembleText (next : Nat) : Text → StateM (Array State) Nat
  | [] => return next
  | c :: rest => do add (.take (.single c) (← assembleText next rest))

/-- The state from which `count` pieces lead to `next`. -/
def assembleCopies (body : Nat → StateM (Array State) Nat) :
    (count : Nat) → (next : Nat) → StateM (Array State) Nat
  | 0, next => return next
  | count + 1, next => do assembleCopies body count (← body next)

/-- The state from which at most `count` pieces lead to `past`; `next` follows the last one. -/
def assembleOptional (body : Nat → StateM (Array State) Nat) (greedy : Bool) (past : Nat) :
    (count : Nat) → (next : Nat) → StateM (Array State) Nat
  | 0, next => return next
  | count + 1, next => do
    assembleOptional body greedy past count (← add (choice greedy (← body next) past))

/-- The state from which one or more pieces lead to `next`, and the fork behind a piece. -/
def assembleSome (body : Nat → StateM (Array State) Nat) (greedy : Bool) (next : Nat) :
    StateM (Array State) Nat := do
  let again ← add .done
  let first ← body again
  put again (choice greedy first next)
  return first

/-- The state from which any number of pieces leads to `next`. A piece that may take nothing is
not asked for by the fork that lets it be repeated, so that it does not hide better ways. -/
def assembleMany (body : Nat → StateM (Array State) Nat) (takesSome greedy : Bool) (next : Nat) :
    StateM (Array State) Nat := do
  if takesSome then
    let again ← add .done
    put again (choice greedy (← body again) next)
    return again
  else add (choice greedy (← assembleSome body greedy next) next)

mutual

/-- The state from which a piece of a term leads to `next`. -/
def assemble (next : Nat) : Term → StateM (Array State) Nat
  | .empty => return next
  | .literal text => assembleText next text
  | .set chars => add (.take chars next)
  | .look condition => add (.look condition next)
  | .group _ body => assemble next body
  | .loop body least most greedy =>
    let piece := fun next => assemble next body
    match most with
    | some most => do
      assembleCopies piece least (← assembleOptional piece greedy next (most - least) next)
    | none =>
      if least = 0 then assembleMany piece (0 < body.minLength?.getD 0) greedy next
      else do assembleCopies piece (least - 1) (← assembleSome piece greedy next)
  | .seq items => assembleSeq next items
  | .either branches => do add (.fork (← assembleEach next branches))

/-- The state from which pieces of all terms, one after the other, lead to `next`. -/
def assembleSeq (next : Nat) : List Term → StateM (Array State) Nat
  | [] => return next
  | item :: items => do assemble (← assembleSeq next items) item

/-- The states from which a piece of one of the terms leads to `next`. -/
def assembleEach (next : Nat) : List Term → StateM (Array State) (List Nat)
  | [] => return []
  | branch :: branches => return (← assemble next branch) :: (← assembleEach next branches)

end

/-- The machine that finds the pieces of a term. -/
def ofTerm (term : Term) : Machine :=
  let (start, states) := assemble 0 term #[.done]
  ⟨states, start, term.isAnchored .textStart false⟩

/-- The number of ways that lead on from a state. -/
def ways : State → Nat
  | .take _ _ => 0
  | .look _ _ => 1
  | .fork nexts => nexts.length
  | .done => 0

/-- A bound on the number of visits at a place, beside those that are asked for. -/
def visits (machine : Machine) : Nat :=
  machine.states.foldl (fun total state => total + ways state) 0

/-- What waits for the next character: a set of characters, and the state behind one of them. -/
abbrev Waiting := List (CharSet × Nat)

/-- Visit states in order, and what they lead to, until a match ends. `place` marks the states that
have been visited; `waiting` is what has been found so far, the latest first. -/
def visit (machine : Machine) (holds : Look → Bool) (place : Nat) :
    (bound : Nat) → (pending : List Nat) → Waiting → (marks : Array Nat) →
      (Bool × Waiting) × Array Nat
  | 0, _, waiting, marks => ((false, waiting), marks)
  | _ + 1, [], waiting, marks => ((false, waiting), marks)
  | bound + 1, index :: pending, waiting, marks =>
    if marks[index]? = some place then visit machine holds place bound pending waiting marks
    else
      let marks := marks.setIfInBounds index place
      match machine.states[index]? with
      | some (.take chars next) =>
        visit machine holds place bound pending ((chars, next) :: waiting) marks
      | some (.look condition next) =>
        let pending := if holds condition then next :: pending else pending
        visit machine holds place bound pending waiting marks
      | some (.fork nexts) => visit machine holds place bound (nexts ++ pending) waiting marks
      | some .done => ((true, waiting), marks)
      | none => visit machine holds place bound pending waiting marks

/-- The number of characters before the end of the best match: a match that ends at a place is
better than one that has been found before. -/
def best (ends : Bool) (place : Nat) (found : Option Nat) : Option Nat :=
  if ends then some (place - 1) else found

/-- The states to visit behind a character. Unless a match has been found, another one may begin
there. -/
def onward (machine : Machine) (found : Option Nat) (waiting : Waiting) (c : Char) : List Nat :=
  let reached := waiting.reverse.filterMap fun (chars, next) =>
    if chars.contains c then some next else none
  if found.isNone && !machine.anchored then reached ++ [machine.start] else reached

/-- Read the rest of a text. `place` counts the places from one on, `found` is the number of
characters before the end of the best match so far, and `pending` are the states to visit. -/
def readFrom (machine : Machine) (visits : Nat) (before : Option Char) (place : Nat)
    (found : Option Nat) (pending : List Nat) (marks : Array Nat) : Text → Option Nat
  | [] =>
    let holds := fun condition : Look => condition.holds before none
    let ((ends, _), _) :=
      visit machine holds place (visits + pending.length + 1) pending [] marks
    best ends place found
  | c :: rest =>
    let holds := fun condition : Look => condition.holds before (some c)
    let ((ends, waiting), marks) :=
      visit machine holds place (visits + pending.length + 1) pending [] marks
    let found := best ends place found
    let pending := machine.onward found waiting c
    if pending.isEmpty then found
    else readFrom machine visits (some c) (place + 1) found pending marks rest

/-- The number of characters before the end of the leftmost match in a text. -/
def search? (machine : Machine) (text : Text) : Option Nat :=
  readFrom machine machine.visits none 1 none [machine.start]
    (Array.replicate machine.states.size 0) text

/-- A match that ends at a place or has been found before ends up to this place. -/
theorem lt_of_mem_best {ends : Bool} {place : Nat} {found : Option Nat} (hplace : 0 < place)
    (hfound : ∀ n ∈ found, n < place) : ∀ n ∈ best ends place found, n < place := by
  intro n hn
  unfold best at hn
  split at hn
  · obtain rfl := Option.mem_some_iff.1 hn
    omega
  · exact hfound n hn

/-- A match that is found in the rest of a text ends within it. -/
theorem lt_of_mem_readFrom {machine : Machine} {visits : Nat} {before : Option Char} {place : Nat}
    {found : Option Nat} {pending : List Nat} {marks : Array Nat} {text : Text}
    (hplace : 0 < place) (hfound : ∀ n ∈ found, n < place) :
    ∀ n ∈ readFrom machine visits before place found pending marks text,
      n < place + text.length := by
  induction text generalizing before place found pending marks with
  | nil => exact lt_of_mem_best hplace hfound
  | cons c rest ih =>
    intro n hn
    have hbest := fun ends => @lt_of_mem_best ends place found hplace hfound
    simp only [readFrom] at hn
    rw [List.length_cons]
    split at hn
    · have := hbest _ n hn
      omega
    · have := ih (by omega) (fun m hm => Nat.lt_succ_of_lt (hbest _ m hm)) n hn
      omega

/-- A match ends within the text. -/
theorem search?_le {machine : Machine} {text : Text} {n : Nat}
    (h : machine.search? text = some n) : n ≤ text.length := by
  have := lt_of_mem_readFrom (by omega) (by simp) n h
  omega

end Machine

end Retrace.Pattern
