import Retrace.Grammar.Basic

/-!
# Left recursion

A rule is nullable when it can match without reading anything, and it calls another rule on the
left when it may do so before anything has been read. A rule that reaches itself by such calls
cannot be evaluated; `LeftRecursion.first?` finds the first such rule.
-/

namespace Retrace

namespace Expr

mutual

/-- The expression can match without reading anything, if `nullable` tells which rules can. A token
always reads something. -/
def isNullable (nullable : Nat → Bool) : Production → Bool
  | .literal text => text.isEmpty
  | .call (.token _) => false
  | .call (.rule index) => nullable index
  | .seq items => allNullable nullable items
  | .either branches => someNullable nullable branches
  | .optional _ => true
  | .loop _ _ => true

/-- All of the expressions can match without reading anything. -/
def allNullable (nullable : Nat → Bool) : List Production → Bool
  | [] => true
  | item :: items => item.isNullable nullable && allNullable nullable items

/-- One of the expressions can match without reading anything. -/
def someNullable (nullable : Nat → Bool) : List Production → Bool
  | [] => false
  | branch :: branches => branch.isNullable nullable || someNullable nullable branches

end

mutual

/-- The rules that the expression may call before anything has been read. -/
def leftCalls (nullable : Nat → Bool) : Production → List Nat
  | .literal _ => []
  | .call (.token _) => []
  | .call (.rule index) => [index]
  | .seq items => leftCallsSeq nullable items
  | .either branches => leftCallsEither nullable branches
  | .optional body => body.leftCalls nullable
  | .loop _ body => body.leftCalls nullable

/-- The rules that a sequence may call before anything has been read. -/
def leftCallsSeq (nullable : Nat → Bool) : List Production → List Nat
  | [] => []
  | item :: items =>
    item.leftCalls nullable ++
      if item.isNullable nullable then leftCallsSeq nullable items else []

/-- The rules that one of several alternatives may call before anything has been read. -/
def leftCallsEither (nullable : Nat → Bool) : List Production → List Nat
  | [] => []
  | branch :: branches => branch.leftCalls nullable ++ leftCallsEither nullable branches

end

end Expr

namespace LeftRecursion

/-- Which rules are nullable, judged by an earlier verdict on all rules. -/
def nullableStep (bodies : List Production) (verdict : Array Bool) : Array Bool :=
  (bodies.map fun body => body.isNullable fun index => verdict.getD index false).toArray

/-- Which rules are nullable, judged in rounds until a verdict confirms itself. -/
def nullableFrom (bodies : List Production) : (rounds : Nat) → (verdict : Array Bool) → Array Bool
  | 0, verdict => verdict
  | rounds + 1, verdict =>
    let next := nullableStep bodies verdict
    if next = verdict then verdict else nullableFrom bodies rounds next

/-- Which rules are nullable. Every round but the last finds another one, so as many rounds as
there are rules suffice. -/
def nullable (bodies : List Production) : Array Bool :=
  nullableFrom bodies bodies.length (bodies.map fun _ => false).toArray

/-- For every rule, the rules that it calls on the left. -/
def leftCalls (bodies : List Production) : Array (List Nat) :=
  let verdict := nullable bodies
  (bodies.map fun body => body.leftCalls fun index => verdict.getD index false).toArray

/-- Mark the rules in `waiting`, and whatever they reach by calls, among those reached before. A
rule that is marked already leads nowhere new. -/
def reach (calls : Array (List Nat)) :
    (fuel : Nat) → (waiting : List Nat) → (reached : Array Bool) → Array Bool
  | 0, _, reached => reached
  | _ + 1, [], reached => reached
  | fuel + 1, index :: waiting, reached =>
    -- A number that is not one of a rule counts as reached.
    if reached.getD index true then reach calls fuel waiting reached
    else reach calls fuel (calls.getD index [] ++ waiting) (reached.setIfInBounds index true)

/-- The rules that a rule reaches by one call or more. Every call is looked at once, those of the
rule itself twice. -/
def reachedFrom (calls : Array (List Nat)) (index : Nat) : Array Bool :=
  let first := calls.getD index []
  let fuel := calls.foldl (fun total others => total + others.length) first.length
  reach calls fuel first (calls.map fun _ => false)

/-- The rule reaches itself by calls on the left. -/
def isLeftRecursive (calls : Array (List Nat)) (index : Nat) : Bool :=
  (reachedFrom calls index).getD index false

/-- The first rule that reaches itself by calls on the left. -/
def first? (bodies : List Production) : Option Nat :=
  let calls := leftCalls bodies
  (List.range bodies.length).find? (isLeftRecursive calls)

end LeftRecursion

end Retrace
