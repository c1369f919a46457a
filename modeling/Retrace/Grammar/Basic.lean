import Retrace.Grammar.Expr
import Retrace.Grammar.Shape

/-!
# Compiled grammars

In a compiled grammar names have become numbers: an expression refers to a token or to a rule by
its place in the grammar, and every repetition has a label of its own. The `plan` lists rules and
repetitions so that whatever is needed to evaluate one of them at a place, without having read
anything yet, stands before it.
-/

namespace Retrace

/-- What a name in a compiled expression stands for. -/
inductive Target where
  /-- A token, by number. -/
  | token (index : Nat)
  /-- A production rule, by number. -/
  | rule (index : Nat)
  deriving DecidableEq, Repr

/-- An expression of a compiled grammar. -/
abbrev Production := Expr Target Nat

/-- A named token. -/
structure Token where
  /-- The name of the token. -/
  name : String
  /-- What the token looks like. -/
  shape : Shape
  deriving Repr

/-- A named production rule. -/
structure Rule where
  /-- The name of the rule. -/
  name : String
  /-- What the rule stands for. -/
  body : Production
  deriving Repr

/-- Something that is evaluated at most once at every place of a text. -/
inductive Entry where
  /-- The repetition with a label. -/
  | loop (label : Nat) (body : Production)
  /-- The rule with a number. -/
  | rule (index : Nat) (name : String) (body : Production)
  deriving Repr

/-- What identifies an entry. -/
inductive Entry.Key where
  /-- The repetition with a label. -/
  | loop (label : Nat)
  /-- The rule with a number. -/
  | rule (index : Nat)
  deriving DecidableEq, Repr

namespace Entry

/-- The key of an entry. -/
def key : Entry → Key
  | loop label _ => .loop label
  | rule index _ _ => .rule index

/-- The expression that an entry evaluates. -/
def body : Entry → Production
  | loop _ body => body
  | rule _ _ body => body

end Entry

/-- A compiled grammar. -/
structure Grammar where
  /-- The tokens. -/
  tokens : Array Token
  /-- The production rules; the first one is the top rule. -/
  rules : Array Rule
  /-- What may stand between tokens. -/
  skip : Shape
  /-- Rules and repetitions in the order of evaluation. -/
  plan : List Entry
  deriving Repr

namespace Grammar

/-- The grammar that matches nothing. -/
def empty : Grammar :=
  ⟨#[], #[], .blanks, []⟩

/-- The name of the top rule. -/
def topRule (grammar : Grammar) : String :=
  match grammar.rules[0]? with
  | some rule => rule.name
  | none => ""

end Grammar

end Retrace
