import Retrace.Grammar.Chart

/-!
# Leaves and nodes of parse trees

What a tree consists of is what its children consist of, one after the other. The functions that
list leaves and nodes put them in front of an accumulator; here the accumulator is taken off, so
that a tree that is known child by child can be evaluated by `simp`.
-/

namespace Retrace

namespace ParseTree

@[simp] theorem span_leaf (found : Leaf) : (leaf found).span = found.span :=
  rfl

@[simp] theorem span_node (rule : Option String) (children : List (Option ParseTree))
    (span : Span) : (node rule children span).span = span :=
  rfl

/-! ## Leaves -/

mutual

/-- What follows the leaves of a tree is put behind them. -/
theorem leavesOnto_eq (behind : List Leaf) :
    (tree : ParseTree) → tree.leavesOnto behind = tree.leaves ++ behind
  | .leaf _ => rfl
  | .node _ children _ => leavesOntoAll_eq behind children

/-- The leaves of children are those of one child after the other. -/
theorem leavesOntoAll_eq (behind : List Leaf) :
    (children : List (Option ParseTree)) →
      leavesOntoAll behind children = leavesOntoAll [] children ++ behind
  | [] => rfl
  | none :: others => leavesOntoAll_eq behind others
  | some tree :: others => by
    rw [leavesOntoAll, leavesOntoAll, leavesOnto_eq _ tree, leavesOnto_eq (leavesOntoAll [] others),
      leavesOntoAll_eq behind others, List.append_assoc]

end

/-- The leaves of some children. -/
def leavesOf (children : List (Option ParseTree)) : List Leaf :=
  leavesOntoAll [] children

@[simp] theorem leaves_leaf (found : Leaf) : (leaf found).leaves = [found] :=
  rfl

@[simp] theorem leaves_node (rule : Option String) (children : List (Option ParseTree))
    (span : Span) : (node rule children span).leaves = leavesOf children :=
  rfl

@[simp] theorem leavesOf_nil : leavesOf [] = [] :=
  rfl

@[simp] theorem leavesOf_none (others : List (Option ParseTree)) :
    leavesOf (none :: others) = leavesOf others :=
  rfl

@[simp] theorem leavesOf_some (tree : ParseTree) (others : List (Option ParseTree)) :
    leavesOf (some tree :: others) = tree.leaves ++ leavesOf others :=
  leavesOnto_eq _ tree

@[simp] theorem leavesOf_append (front back : List (Option ParseTree)) :
    leavesOf (front ++ back) = leavesOf front ++ leavesOf back := by
  induction front with
  | nil => rfl
  | cons first later ih => cases first <;> simp [ih]

@[simp] theorem leaves_groupItems (items : List (Option ParseTree)) (offset : Nat) :
    (groupItems items offset).leaves = leavesOf items := by
  unfold groupItems
  split <;> simp

/-! ## Nodes -/

mutual

/-- The nodes that follow those of a tree are put behind them. -/
theorem nodesOnto_eq (rule : String) (behind : List ParseTree) :
    (tree : ParseTree) → tree.nodesOnto rule behind = tree.findAll rule ++ behind
  | .leaf _ => rfl
  | .node name children span => by
    rw [findAll, nodesOnto, nodesOnto, nodesOntoAll_eq rule behind children]
    split <;> rfl

/-- The nodes below children are those below one child after the other. -/
theorem nodesOntoAll_eq (rule : String) (behind : List ParseTree) :
    (children : List (Option ParseTree)) →
      nodesOntoAll rule behind children = nodesOntoAll rule [] children ++ behind
  | [] => rfl
  | none :: others => nodesOntoAll_eq rule behind others
  | some tree :: others => by
    rw [nodesOntoAll, nodesOntoAll, nodesOnto_eq rule _ tree,
      nodesOnto_eq rule (nodesOntoAll rule [] others), nodesOntoAll_eq rule behind others,
      List.append_assoc]

end

/-- The nodes of a rule in some children. -/
def nodesOf (rule : String) (children : List (Option ParseTree)) : List ParseTree :=
  nodesOntoAll rule [] children

variable {rule : String} {children others : List (Option ParseTree)}

@[simp] theorem findAll_leaf (found : Leaf) : (leaf found).findAll rule = [] :=
  rfl

@[simp] theorem findAll_node (name : Option String) (span : Span) :
    (node name children span).findAll rule =
      if name = some rule then node name children span :: nodesOf rule children
      else nodesOf rule children :=
  rfl

@[simp] theorem nodesOf_nil : nodesOf rule [] = [] :=
  rfl

@[simp] theorem nodesOf_none : nodesOf rule (none :: others) = nodesOf rule others :=
  rfl

@[simp] theorem nodesOf_some (tree : ParseTree) :
    nodesOf rule (some tree :: others) = tree.findAll rule ++ nodesOf rule others :=
  nodesOnto_eq rule _ tree

@[simp] theorem nodesOf_append :
    nodesOf rule (children ++ others) = nodesOf rule children ++ nodesOf rule others := by
  induction children with
  | nil => rfl
  | cons first later ih => cases first <;> simp [ih]

end ParseTree

end Retrace
