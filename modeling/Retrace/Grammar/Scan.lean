import Retrace.Grammar.Chart

/-!
# Matching texts

`Grammar.matchExact` matches a whole text, `Grammar.findAll` finds the matches in a larger one from
left to right. Neither fails: a text that does not match gives no tree.
-/

namespace Retrace

namespace Chart

/-- The offset behind whatever may be skipped at the first place. -/
def skippedOffset (grammar : Grammar) (chart : Chart) : Nat :=
  match chart with
  | row :: _ => (grammar.skipped row.cursor).offset
  | [] => 0

/-- The longest parse of the top rule from the first place that reads something and has leaves, with
the offset where it ends. -/
def longest? (chart : Chart) : Option (ParseTree × Nat) :=
  match (chart.ruleEnds 0).getLast? with
  | some stop =>
    if chart.offset < stop then
      match chart.ruleTree 0 stop with
      | some tree => if tree.leaves.isEmpty then none else some (tree, stop)
      | none => none
    else none
  | none => none

/-- The matches of the top rule that start at `resume` or behind it. -/
def findFrom (resume : Nat) : Chart → List ParseTree
  | [] => []
  | row :: later =>
    if row.cursor.offset < resume then findFrom resume later
    else if row.cursor.rest.isEmpty then []
    else match longest? (row :: later) with
      | some (tree, stop) => tree :: findFrom stop later
      | none => findFrom resume later

end Chart

namespace Grammar

/-- Match the whole text, with whatever may be skipped at both ends. The longest match wins. -/
def matchExact (grammar : Grammar) (text : Text) : Option ParseTree :=
  let chart := grammar.chart text
  let stop? := (chart.ruleEnds 0).reverse.find? fun stop =>
    (chart.seek stop).skippedOffset grammar = Text.size text
  match stop? with
  | some stop => chart.ruleTree 0 stop
  | none => none

/-- Find the matches in a text from left to right. Where one starts, the longest is taken and the
search goes on behind it; elsewhere the search goes on at the next character. -/
def findAll (grammar : Grammar) (text : Text) : List ParseTree :=
  (grammar.chart text).findFrom 0

end Grammar

end Retrace
