import Retrace.Grammar.LeftRecursion

/-!
# The order of evaluation

Rules and repetitions are evaluated at every place of a text in one fixed order. What an entry may
need at the same place, before anything has been read, stands before it; without left recursion
such an order exists, and `Plan.ofRules` finds it round by round.
-/

namespace Retrace

namespace Expr

mutual

/-- The entries that an expression may need before anything has been read. -/
def needs (nullable : Nat → Bool) : Production → List Entry.Key
  | .literal _ => []
  | .call (.token _) => []
  | .call (.rule index) => [.rule index]
  | .seq items => needsSeq nullable items
  | .either branches => needsEither nullable branches
  | .optional body => body.needs nullable
  | .loop label _ => [.loop label]

/-- The entries that a sequence may need before anything has been read. -/
def needsSeq (nullable : Nat → Bool) : List Production → List Entry.Key
  | [] => []
  | item :: items =>
    item.needs nullable ++ if item.isNullable nullable then needsSeq nullable items else []

/-- The entries that one of several alternatives may need before anything has been read. -/
def needsEither (nullable : Nat → Bool) : List Production → List Entry.Key
  | [] => []
  | branch :: branches => branch.needs nullable ++ needsEither nullable branches

end

end Expr

namespace Plan

/-- All entries of some rules: every rule, behind the repetitions in its body. -/
def entries (rules : List Rule) : List Entry :=
  rules.zipIdx.flatMap fun (rule, index) =>
    rule.body.loops.map (fun (label, body) => .loop label body) ++ [.rule index rule.name rule.body]

/-- Settle entries round by round: an entry is settled once its needs are, of which those that are
not settled yet stand beside it. -/
def settle : (rounds : Nat) → (waiting : List (Entry × List Entry.Key)) → List Entry
  | 0, _ => []
  | rounds + 1, waiting =>
    let (ready, blocked) := waiting.partition fun (_, unmet) => unmet.isEmpty
    let settled := ready.map Prod.fst
    let keys := settled.map Entry.key
    -- Nothing waits any longer for what is settled now.
    settled ++ settle rounds (blocked.map fun (entry, unmet) =>
      (entry, unmet.filter fun key => !keys.contains key))

/-- The entries of some rules in an order in which needs go back. Without left recursion every
round settles an entry, so as many rounds as there are entries suffice. -/
def ofRules (rules : List Rule) : List Entry :=
  let verdict := LeftRecursion.nullable (rules.map Rule.body)
  let entries := entries rules
  settle entries.length (entries.map fun entry =>
    (entry, entry.body.needs fun index => verdict.getD index false))

end Plan

end Retrace
