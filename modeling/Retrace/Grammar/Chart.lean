import Std.Data.TreeMap
import Retrace.Grammar.Ends
import Retrace.Grammar.Terminal

/-!
# Charts

A chart shows, for every place of a text from somewhere on, where the rules and repetitions of a
grammar can end that start there, and how. Rows are filled from the end of the text to its start;
within a row the entries follow the plan of the grammar, so an entry needs nothing but earlier
entries of its row and later rows. Every entry is computed at most once and only if it is asked
for.

Recognition and tree building are two functions on expressions: `Expr.ends` gives all places where
an expression can end, `Expr.build` the preferred parse that ends at one of them.
-/

namespace Retrace

/-- What is known about a rule at a place. -/
structure RuleCell where
  /-- The offsets where the rule can end. -/
  ends : Thunk (List Nat)
  /-- The parse that ends at an offset, if the rule can end there. -/
  tree : Nat → Option ParseTree

/-- What is known about a place. -/
structure Row where
  /-- The place. -/
  cursor : Cursor
  /-- What is known about rules, by number. -/
  rules : List (Nat × RuleCell)
  /-- What is known about repetitions, by label: the offsets where some iterations can end, each
  with the offset where the last of these iterations begins. -/
  loops : List (Nat × Thunk (Std.TreeMap Nat Nat))

/-- A place and all later ones, with what is known about them. -/
abbrev Chart := List Row

namespace Chart

/-- The offset of the first place. -/
def offset (chart : Chart) : Nat :=
  match chart with
  | row :: _ => row.cursor.offset
  | [] => 0

/-- The part of the chart that begins at an offset. -/
def seek (chart : Chart) (offset : Nat) : Chart :=
  chart.dropWhile fun row => row.cursor.offset < offset

/-- The offsets where a rule can end that starts at the first place. -/
def ruleEnds (chart : Chart) (index : Nat) : List Nat :=
  match chart with
  | row :: _ =>
    match row.rules.lookup index with
    | some cell => cell.ends.get
    | none => []
  | [] => []

/-- The parse of a rule from the first place to an offset. -/
def ruleTree (chart : Chart) (index stop : Nat) : Option ParseTree :=
  match chart with
  | row :: _ =>
    match row.rules.lookup index with
    | some cell => cell.tree stop
    | none => none
  | [] => none

/-- The offsets where a repetition can end that starts at the first place and makes at least one
iteration, each with the offset where its last iteration begins. -/
def loopEnds (chart : Chart) (label : Nat) : Std.TreeMap Nat Nat :=
  match chart with
  | row :: _ =>
    match row.loops.lookup label with
    | some ends => ends.get
    | none => ∅
  | [] => ∅

/-- The terminal that `find` finds at the first place. -/
def terminal? (chart : Chart) (find : Cursor → Option Terminal) : Option Terminal :=
  match chart with
  | row :: _ => find row.cursor
  | [] => none

/-- The offset where a terminal ends, if there is one, as a set. -/
def terminalEnds (chart : Chart) (find : Cursor → Option Terminal) : List Nat :=
  match chart.terminal? find with
  | some terminal => [terminal.span.stop]
  | none => []

/-- All offsets that `ends` gives at any of the offsets reached so far, which ascend. -/
def spread (ends : Chart → List Nat) (chart : Chart) : (reached : List Nat) → List Nat
  | [] => []
  | offset :: later =>
    let here := chart.seek offset
    Ends.union (ends here) (spread ends here later)

/-- Take one offset into account that an iteration from `here` can reach: the first iteration to
reach it is recorded, and the place is visited later. -/
def reach (here : Chart) (found : List Chart × Std.TreeMap Nat Nat) (stop : Nat) :
    List Chart × Std.TreeMap Nat Nat :=
  if stop ≤ here.offset ∨ found.2.contains stop then found
  else (here.seek stop :: found.1, found.2.insert stop here.offset)

/-- Visit the places reached by one more iteration, in order; an iteration takes at least one
character, so there are at most as many rounds as there are characters. -/
def explore (ends : Chart → List Nat) :
    (rounds : Nat) → (frontier : List Chart) → Std.TreeMap Nat Nat → Std.TreeMap Nat Nat
  | 0, _, previous => previous
  | _ + 1, [], previous => previous
  | rounds + 1, here :: others, previous =>
    -- The places found come out latest first, and are turned round for the next round.
    let (found, previous) := (here :: others).foldl
      (fun found here => (ends here).foldl (reach here) found) ([], previous)
    explore ends rounds found.reverse previous

/-- Number of characters ahead of the first place. -/
def left (chart : Chart) : Nat :=
  match chart with
  | row :: _ => row.cursor.left
  | [] => 0

/-- Where iterations from the first place can end, each with where the last one begins. -/
def iterate (ends : Chart → List Nat) (chart : Chart) : Std.TreeMap Nat Nat :=
  explore ends (chart.left + 1) [chart] ∅

/-- The ends of the iterations that lead from `start` to `stop`, going back from `stop`, with those
of `later` behind them. -/
def cuts (previous : Std.TreeMap Nat Nat) (start : Nat) :
    (bound : Nat) → (stop : Nat) → (later : List Nat) → Option (List Nat)
  | bound, stop, later =>
    if stop = start then some later
    else match bound, previous[stop]? with
      | bound + 1, some earlier => cuts previous start bound earlier (stop :: later)
      | _, _ => none

end Chart

/-- The span from the first child that is there to the last one; without any, the given offset. -/
def coverSpan (children : List (Option ParseTree)) (offset : Nat) : Span :=
  match children.filterMap fun child => child.map ParseTree.span with
  | [] => .point offset
  | first :: others => others.foldl Span.cover first

/-- The items of an optional part or of one iteration as a single tree. -/
def groupItems (items : List (Option ParseTree)) (offset : Nat) : ParseTree :=
  match items with
  | [some tree] => tree
  | _ => .node none items (coverSpan items offset)

namespace Expr

mutual

/-- The offsets where an expression can end that starts at the first place of a chart. -/
def ends (grammar : Grammar) : Production → Chart → List Nat
  | .literal text, chart => chart.terminalEnds (grammar.literal? text)
  | .call (.token index), chart => chart.terminalEnds (grammar.token? index)
  | .call (.rule index), chart => chart.ruleEnds index
  | .seq items, chart => endsSeq grammar items chart [chart.offset]
  | .either branches, chart => endsEither grammar branches chart
  | .optional body, chart => Ends.insert chart.offset (body.ends grammar chart)
  | .loop label _, chart => Ends.insert chart.offset (chart.loopEnds label).keys

/-- The offsets where a sequence can end whose items start at one of the offsets reached so far. -/
def endsSeq (grammar : Grammar) : List Production → Chart → (reached : List Nat) → List Nat
  | [], _, reached => reached
  | item :: items, chart, reached =>
    endsSeq grammar items chart (chart.spread (fun here => item.ends grammar here) reached)

/-- The offsets where one of several alternatives can end. -/
def endsEither (grammar : Grammar) : List Production → Chart → List Nat
  | [], _ => []
  | branch :: branches, chart =>
    Ends.union (branch.ends grammar chart) (endsEither grammar branches chart)

end

/-- Build the iterations of a repetition whose ends are given, with those built so far in `built`,
the latest first. -/
def buildLoop (build : Chart → Nat → Option (List (Option ParseTree)))
    (built : List (Option ParseTree)) (chart : Chart) :
    (stops : List Nat) → Option (List (Option ParseTree))
  | [] => some built.reverse
  | stop :: stops =>
    match build chart stop with
    | some items =>
      buildLoop build (some (groupItems items chart.offset) :: built) (chart.seek stop) stops
    | none => none

mutual

/-- The items of the preferred parse of an expression from the first place of a chart to an
offset. -/
def build (grammar : Grammar) : Production → Chart → (stop : Nat) → Option (List (Option ParseTree))
  | .literal text, chart, stop =>
    ((chart.terminal? (grammar.literal? text)).filter fun found => found.span.stop = stop).map
      fun found => [some (.leaf ⟨String.ofList text, found.text, found.span⟩)]
  | .call (.token index), chart, stop =>
    ((chart.terminal? (grammar.token? index)).filter fun found => found.span.stop = stop).map
      fun found => [some (.leaf ⟨grammar.tokenName index, found.text, found.span⟩)]
  | .call (.rule index), chart, stop => (chart.ruleTree index stop).map fun tree => [some tree]
  | .seq items, chart, stop => buildSeq grammar items chart stop
  | .either branches, chart, stop => buildEither grammar branches chart stop
  | .optional body, chart, stop =>
    -- A body that can end there is preferred to none, also where it reads nothing.
    if (body.ends grammar chart).contains stop then
      (body.build grammar chart stop).map fun items => [some (groupItems items chart.offset)]
    else if stop = chart.offset then some [none]
    else none
  | .loop label body, chart, stop =>
    -- Going back from the end gives the cuts, going ahead again the iterations.
    match Chart.cuts (chart.loopEnds label) chart.offset (chart.left + 1) stop [] with
    | some stops =>
      (buildLoop (fun here stop => body.build grammar here stop) [] chart stops).map fun children =>
        [some (.node none children (coverSpan children chart.offset))]
    | none => none

/-- The items of a sequence: the first one takes the furthest end from which the others can still
reach the wanted offset. -/
def buildSeq (grammar : Grammar) :
    List Production → Chart → (stop : Nat) → Option (List (Option ParseTree))
  | [], chart, stop => if chart.offset = stop then some [] else none
  | item :: items, chart, stop =>
    -- Ends ascend, so the furthest one is found first.
    let middle? := (item.ends grammar chart).reverse.find? fun middle =>
      middle ≤ stop && (endsSeq grammar items (chart.seek middle) [middle]).contains stop
    match middle? with
    | some middle =>
      match item.build grammar chart middle,
          buildSeq grammar items (chart.seek middle) stop with
      | some front, some back => some (front ++ back)
      | _, _ => none
    | none => none

/-- The items of the first alternative that can reach the wanted offset. -/
def buildEither (grammar : Grammar) :
    List Production → Chart → (stop : Nat) → Option (List (Option ParseTree))
  | [], _, _ => none
  | branch :: branches, chart, stop =>
    if (branch.ends grammar chart).contains stop then branch.build grammar chart stop
    else buildEither grammar branches chart stop

end

end Expr

namespace Row

/-- Fill in one entry of the first row of a chart. -/
def fill (grammar : Grammar) (later : Chart) (row : Row) : Entry → Row
  | .loop label body =>
    -- What the entry needs of its own row has been filled in before.
    let ends := Thunk.mk fun _ => Chart.iterate (fun here => body.ends grammar here) (row :: later)
    { row with loops := (label, ends) :: row.loops }
  | .rule index name body =>
    let ends := Thunk.mk fun _ => body.ends grammar (row :: later)
    let tree := fun stop =>
      if ends.get.contains stop then
        (body.build grammar (row :: later) stop).map fun children =>
          ParseTree.node (some name) children (coverSpan children row.cursor.offset)
      else none
    { row with rules := (index, ⟨ends, tree⟩) :: row.rules }

/-- The row of a place in front of a chart. -/
def ofCursor (grammar : Grammar) (cursor : Cursor) (later : Chart) : Row :=
  grammar.plan.foldl (fill grammar later) ⟨cursor, [], []⟩

end Row

/-- The chart of a whole text. -/
def Grammar.chart (grammar : Grammar) (text : Text) : Chart :=
  (Cursor.ofText text).places.foldr
    (fun cursor later => Row.ofCursor grammar cursor later :: later) []

end Retrace
