import Retrace.Text.Basic
import Retrace.Text.Span

/-!
# Parse trees

A parse tree shows how a grammar matches a piece of text. Its leaves are the matched terminals; its
inner nodes are rules, or anonymous groups for repetitions and for optional parts of several terms.
Spans refer to the text that was matched.
-/

namespace Retrace

/-- A matched terminal. -/
structure Leaf where
  /-- The name of the token, or the literal itself. -/
  token : String
  /-- The matched text. -/
  text : Text
  /-- Where it was matched. -/
  span : Span
  deriving DecidableEq, Repr

/-- How a grammar matches a piece of text. -/
inductive ParseTree where
  /-- A matched terminal. -/
  | leaf (found : Leaf)
  /-- A rule, or an anonymous group without a name. There is one child for every term; optional
  terms that did not match have none in their place. -/
  | node (rule : Option String) (children : List (Option ParseTree)) (span : Span)
  deriving Repr

namespace ParseTree

/-- Where the tree was matched. -/
def span : ParseTree → Span
  | leaf found => found.span
  | node _ _ span => span

/-- The children of a node; a leaf has none. -/
def children : ParseTree → List (Option ParseTree)
  | leaf _ => []
  | node _ children _ => children

/-- The child with a number, if there is one and it matched. -/
def child? (tree : ParseTree) (index : Nat) : Option ParseTree :=
  (tree.children[index]?).join

/-- The tree is a node of the named rule. -/
def isRule (tree : ParseTree) (rule : String) : Bool :=
  match tree with
  | node name _ _ => name = some rule
  | leaf _ => false

/-- The tree is a node. -/
def isNode : ParseTree → Bool
  | leaf _ => false
  | node _ _ _ => true

mutual

/-- The leaves of a tree from left to right, with `behind` following them. -/
def leavesOnto (behind : List Leaf) : ParseTree → List Leaf
  | leaf found => found :: behind
  | node _ children _ => leavesOntoAll behind children

/-- The leaves of some children from left to right, with `behind` following them. -/
def leavesOntoAll (behind : List Leaf) : List (Option ParseTree) → List Leaf
  | [] => behind
  | some tree :: others => tree.leavesOnto (leavesOntoAll behind others)
  | none :: others => leavesOntoAll behind others

end

/-- The leaves of a tree from left to right. -/
def leaves (tree : ParseTree) : List Leaf :=
  tree.leavesOnto []

/-- The text of all leaves, without what was skipped between them. -/
def leafText (tree : ParseTree) : Text :=
  tree.leaves.flatMap Leaf.text

mutual

/-- The nodes of the named rule in the tree, itself included, before those in `behind`. -/
def nodesOnto (rule : String) (behind : List ParseTree) : ParseTree → List ParseTree
  | leaf _ => behind
  | node name children span =>
    let below := nodesOntoAll rule behind children
    if name = some rule then node name children span :: below else below

/-- The nodes of the named rule in some children, before those in `behind`. -/
def nodesOntoAll (rule : String) (behind : List ParseTree) :
    List (Option ParseTree) → List ParseTree
  | [] => behind
  | some tree :: others => tree.nodesOnto rule (nodesOntoAll rule behind others)
  | none :: others => nodesOntoAll rule behind others

end

/-- The nodes of the named rule in the tree, outer ones before inner ones, from left to right. -/
def findAll (tree : ParseTree) (rule : String) : List ParseTree :=
  tree.nodesOnto rule []

/-- The first node of the named rule. -/
def find? (tree : ParseTree) (rule : String) : Option ParseTree :=
  (tree.findAll rule).head?

/-- The first leaf below a node that has the named token. -/
def leaf? (tree : ParseTree) (token : String) : Option Leaf :=
  match tree with
  | leaf _ => none
  | node _ _ _ => tree.leaves.find? fun found => found.token = token

end ParseTree

end Retrace
