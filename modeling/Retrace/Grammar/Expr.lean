import Retrace.Text.Basic

/-!
# Grammar expressions

The right-hand sides of production rules. Expressions are generic in what a name refers to and in
the labels of repetitions: a description as written refers by name and labels nothing, a compiled
grammar refers by number and labels every repetition.
-/

namespace Retrace

/-- The right-hand side of a production rule. -/
inductive Expr (Ref Label : Type) where
  /-- A piece of text, written out. -/
  | literal (text : Text)
  /-- Whatever the name stands for. -/
  | call (target : Ref)
  /-- One after the other. -/
  | seq (items : List (Expr Ref Label))
  /-- One of several. -/
  | either (branches : List (Expr Ref Label))
  /-- Once or not at all. -/
  | optional (body : Expr Ref Label)
  /-- Any number of times. -/
  | loop (label : Label) (body : Expr Ref Label)
  deriving Repr

namespace Expr

variable {Ref Label : Type}

/-- Several alternatives; a single one stands for itself. -/
def eitherOf : List (Expr Ref Label) → Expr Ref Label
  | [single] => single
  | branches => .either branches

/-- Several items in sequence; a single one stands for itself. -/
def seqOf : List (Expr Ref Label) → Expr Ref Label
  | [single] => single
  | items => .seq items

mutual

/-- The repetitions inside an expression with their bodies, inner ones first. -/
def loops : Expr Ref Label → List (Label × Expr Ref Label)
  | .literal _ => []
  | .call _ => []
  | .seq items => loopsAll items
  | .either branches => loopsAll branches
  | .optional body => body.loops
  | .loop label body => body.loops ++ [(label, body)]

/-- The repetitions inside several expressions. -/
def loopsAll : List (Expr Ref Label) → List (Label × Expr Ref Label)
  | [] => []
  | expr :: others => expr.loops ++ loopsAll others

end

end Expr

end Retrace
