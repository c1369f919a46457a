import Retrace.Pattern.Look

/-!
# Terms

A term describes pieces of text. Terms are built by functions that keep them simple: a sequence
joins neighbouring literals, alternatives of single characters become a set, and what several
alternatives begin with stands before them. The meaning of a term is given by the machine that it
is assembled to, where it matters what has been simplified: a repetition of something that may take
nothing is a different machine from a repetition of something that takes characters.
-/

namespace Retrace.Pattern

/-- A description of pieces of text. -/
inductive Term where
  /-- The empty piece. -/
  | empty
  /-- A piece that is written out. -/
  | literal (text : Text)
  /-- One character of a set. -/
  | set (chars : CharSet)
  /-- The empty piece, at places of a kind. -/
  | look (condition : Look)
  /-- A piece of the group with a number. -/
  | group (index : Nat) (body : Term)
  /-- At least `least` and at most `most` pieces, preferably many if greedy. -/
  | loop (body : Term) (least : Nat) (most : Option Nat) (greedy : Bool)
  /-- One piece after the other. -/
  | seq (items : List Term)
  /-- A piece of one of several terms, preferably of an earlier one. -/
  | either (branches : List Term)
  deriving Repr, Inhabited

namespace Term

mutual

/-- Two terms are the same. -/
def same : Term → Term → Bool
  | empty, empty => true
  | literal a, literal b => a == b
  | set a, set b => a == b
  | look a, look b => a == b
  | group i a, group j b => i == j && same a b
  | loop a least most greedy, loop b least' most' greedy' =>
    least == least' && most == most' && greedy == greedy' && same a b
  | seq as, seq bs => sameAll as bs
  | either as, either bs => sameAll as bs
  | _, _ => false

/-- Two lists hold the same terms. -/
def sameAll : List Term → List Term → Bool
  | [], [] => true
  | a :: as, b :: bs => same a b && sameAll as bs
  | _, _ => false

end

mutual

/-- The least number of characters of a piece, unless some part has no piece at all. -/
def minLength? : Term → Option Nat
  | empty => some 0
  | literal text => some text.length
  | set chars => if chars.isEmpty then none else some 1
  | look _ => some 0
  | group _ body => minLength? body
  | loop body least _ _ => (minLength? body).map (least * ·)
  | seq items => sumLength? items
  | either branches => leastLength? branches

/-- The sum of the least lengths of some terms. -/
def sumLength? : List Term → Option Nat
  | [] => some 0
  | item :: items =>
    match minLength? item, sumLength? items with
    | some a, some b => some (a + b)
    | _, _ => none

/-- The smallest of the least lengths of some terms. -/
def leastLength? : List Term → Option Nat
  | [] => none
  | [branch] => minLength? branch
  | branch :: branches =>
    match minLength? branch, leastLength? branches with
    | some a, some b => some (min a b)
    | _, _ => none

end

mutual

/-- No piece takes a character. -/
def takesNothing : Term → Bool
  | empty => true
  | literal text => text.isEmpty
  | set _ => false
  | look _ => true
  | group _ body => takesNothing body
  | loop body _ most _ => most.isSome && takesNothing body
  | seq items => allTakeNothing items
  | either branches => allTakeNothing branches

/-- No piece of any of the terms takes a character. -/
def allTakeNothing : List Term → Bool
  | [] => true
  | term :: terms => takesNothing term && allTakeNothing terms

end

mutual

/-- Every piece stands at a place where a condition holds, at its start or, if `backward`, at its
end. -/
def isAnchored (condition : Look) (backward : Bool) : Term → Bool
  | look other => other == condition
  | group _ body => isAnchored condition backward body
  | loop body least _ _ => 0 < least && isAnchored condition backward body
  | seq items =>
    if backward then (anchorLast condition items).1 else anchorFirst condition items
  | either branches => allAnchored condition backward branches
  | _ => false

/-- The condition holds where a sequence starts. -/
def anchorFirst (condition : Look) : List Term → Bool
  | [] => false
  | item :: items =>
    isAnchored condition false item || (takesNothing item && anchorFirst condition items)

/-- The condition holds where a sequence ends; tells whether it takes no character, too. -/
def anchorLast (condition : Look) : List Term → Bool × Bool
  | [] => (false, true)
  | item :: items =>
    let (anchored, nothing) := anchorLast condition items
    (anchored || (nothing && isAnchored condition true item), nothing && takesNothing item)

/-- The condition holds for each of the terms. -/
def allAnchored (condition : Look) (backward : Bool) : List Term → Bool
  | [] => true
  | branch :: branches =>
    isAnchored condition backward branch && allAnchored condition backward branches

end

/-- One character of a set; a single one is written out. -/
def ofSet (chars : CharSet) : Term :=
  match chars.single? with
  | some c => literal [c]
  | none => set chars

/-- The set that a term of one character stands for. -/
def chars? : Term → Option CharSet
  | set chars => some chars
  | literal [c] => some (.single c)
  | _ => none

/-- Put a term in front of a sequence, and a literal into a literal that comes first. -/
def cons (item : Term) (items : List Term) : List Term :=
  match item, items with
  | literal a, literal b :: later => literal (a ++ b) :: later
  | item, items => item :: items

/-- The parts of a term in a sequence. -/
def parts : Term → List Term
  | empty => []
  | seq items => items
  | item => [item]

/-- One term after the other. -/
def sequence (items : List Term) : Term :=
  match (items.flatMap parts).foldr cons [] with
  | [] => empty
  | [single] => single
  | items => seq items

/-- The choices of a term among alternatives. -/
def choices : Term → List Term
  | either branches => branches
  | branch => [branch]

/-- Alternatives, as a set if each of them is one character. -/
def choose (branches : List Term) : Term :=
  match branches with
  | [] => set .none
  | [single] => single
  | branches =>
    match branches.mapM chars? with
    | some sets => ofSet (.unions sets)
    | none => either branches

/-- The terms with which both lists begin. -/
def commonFront : List Term → List Term → List Term
  | a :: as, b :: bs => if same a b then a :: commonFront as bs else []
  | _, _ => []

/-- The terms with which all alternatives begin, if all of them are sequences. -/
def sharedFront (branches : List Term) : List Term :=
  let items := branches.map fun
    | seq items => items
    | _ => []
  match items with
  | first :: others => others.foldl commonFront first
  | [] => []

/-- A piece of one of several terms. What they all begin with stands before the alternatives. -/
def alternatives (branches : List Term) : Term :=
  let branches := branches.flatMap choices
  match choose branches with
  | either _ =>
    let front := sharedFront branches
    if front.isEmpty then either branches
    else
      let rests := branches.map fun branch => sequence (branch.parts.drop front.length)
      sequence (front ++ [choose (rests.flatMap choices)])
  | simple => simple

/-- At least `least` and at most `most` pieces of a term. What takes no character need not be
repeated. -/
def repetition (body : Term) (least : Nat) (most : Option Nat) (greedy : Bool) : Term :=
  let (least, most) :=
    if body.takesNothing then (min least 1, some (min (most.getD 1) 1)) else (least, most)
  if least = 0 ∧ most = some 0 then empty
  else if least = 1 ∧ most = some 1 then body
  else loop body least most greedy

end Term

end Retrace.Pattern
