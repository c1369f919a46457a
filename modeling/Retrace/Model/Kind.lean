import Retrace.Text.Basic

/-!
# Kinds of model elements

A model is a tree of elements of a fixed set of kinds. The kind of an element decides its name in
documents and paths, which elements may stand inside it and in which order they are visited, and
whether it carries text.
-/

namespace Retrace

/-- A kind of model element. -/
inductive NodeKind where
  /-- The whole model. -/
  | nta
  /-- Declarations, global or of one template. -/
  | declaration
  /-- A process template. -/
  | template
  /-- The name of a template or location. -/
  | name
  /-- The parameters of a template. -/
  | parameter
  /-- A location of a template. -/
  | location
  /-- Marks a location as urgent. -/
  | urgent
  /-- Marks a location as committed. -/
  | committed
  /-- A point where a transition branches. -/
  | branchpoint
  /-- Names the initial location. -/
  | init
  /-- A transition of a template. -/
  | transition
  /-- Names the location where a transition starts. -/
  | source
  /-- Names the location where a transition ends. -/
  | target
  /-- A labelled expression at a location or transition. -/
  | label
  /-- A bend in the drawing of a transition. -/
  | nail
  /-- The composition of the system. -/
  | system
  /-- All queries. -/
  | queries
  /-- A query. -/
  | query
  /-- The formula of a query. -/
  | formula
  /-- The comment on a query. -/
  | comment
  /-- A recorded result of a query. -/
  | result
  deriving DecidableEq, Repr, Inhabited

namespace NodeKind

/-- All kinds. -/
def all : List NodeKind :=
  [nta, declaration, template, name, parameter, location, urgent, committed, branchpoint, init,
    transition, source, target, label, nail, system, queries, query, formula, comment, result]

/-- The name of elements of this kind in documents and paths. -/
def tag : NodeKind → String
  | nta => "nta"
  | declaration => "declaration"
  | template => "template"
  | name => "name"
  | parameter => "parameter"
  | location => "location"
  | urgent => "urgent"
  | committed => "committed"
  | branchpoint => "branchpoint"
  | init => "init"
  | transition => "transition"
  | source => "source"
  | target => "target"
  | label => "label"
  | nail => "nail"
  | system => "system"
  | queries => "queries"
  | query => "query"
  | formula => "formula"
  | comment => "comment"
  | result => "result"

instance : ToString NodeKind := ⟨tag⟩

/-- The kind with a name. -/
def ofTag? (name : Text) : Option NodeKind :=
  all.find? fun kind => kind.tag.toList = name

/-- Elements of this kind may stand several times inside one element, so paths number them. -/
def repeats : NodeKind → Bool
  | template | location | branchpoint | transition | label | nail | query | result => true
  | _ => false

/-- Elements of this kind hold a text and no elements. -/
def hasText : NodeKind → Bool
  | declaration | name | parameter | label | system | formula | comment | result => true
  | _ => false

/-- The kinds of the elements that may stand inside an element of this kind, in the order in which
they are visited: those that stand there once come first. -/
def childKinds : NodeKind → List NodeKind
  | nta => [declaration, system, queries, template]
  | template => [name, parameter, declaration, init, location, branchpoint, transition]
  | location => [name, urgent, committed, label]
  | transition => [source, target, label, nail]
  | queries => [query]
  | query => [formula, comment, result]
  | _ => []

/-- The place of a kind in the order in which elements inside this kind are visited. -/
def rank? (parent child : NodeKind) : Option Nat :=
  parent.childKinds.findIdx? (· = child)

/-- Every kind is listed. -/
theorem mem_all (kind : NodeKind) : kind ∈ all := by
  cases kind <;> decide

/-- Different kinds have different names. -/
theorem tag_toList_injective : ∀ {a b : NodeKind}, a.tag.toList = b.tag.toList → a = b := by
  have h : ∀ a ∈ all, ∀ b ∈ all, a.tag.toList = b.tag.toList → a = b := by decide
  exact fun {a b} => h a (mem_all a) b (mem_all b)

/-- Every kind is found by its name. -/
theorem ofTag?_tag (kind : NodeKind) : ofTag? kind.tag.toList = some kind := by
  have h : ∀ kind ∈ all, ofTag? kind.tag.toList = some kind := by decide
  exact h kind (mem_all kind)

end NodeKind

/-- What the expression of a label means. -/
inductive LabelKind where
  /-- What holds in a location. -/
  | invariant
  /-- When a transition may be taken. -/
  | guard
  /-- The channel a transition synchronises on. -/
  | synchronisation
  /-- What a transition changes. -/
  | assignment
  /-- The values a transition chooses. -/
  | select
  /-- The weight of a branch. -/
  | probability
  /-- The rate at which a location is left. -/
  | exponentialRate
  /-- Anything else. -/
  | other (name : Text)
  deriving DecidableEq, Repr

namespace LabelKind

/-- The kinds of labels that have a name of their own. -/
def named : List (String × LabelKind) :=
  [("invariant", invariant), ("guard", guard), ("synchronisation", synchronisation),
    ("assignment", assignment), ("select", select), ("probability", probability),
    ("exponentialrate", exponentialRate)]

/-- The kind of label that a name stands for. -/
def ofName (name : Text) : LabelKind :=
  match named.find? fun entry => entry.1.toList = name with
  | some (_, kind) => kind
  | none => other name

end LabelKind

end Retrace
