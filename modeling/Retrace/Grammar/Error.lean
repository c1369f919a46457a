import Retrace.Text.Span

/-!
# Faults of grammar descriptions

Everything that can be wrong with a grammar description, with the place where it is wrong.
-/

namespace Retrace

/-- What is wrong with a grammar description. -/
inductive GrammarError where
  /-- The description cannot be read past `offset`. -/
  | malformed (offset : Nat)
  /-- A directive has an unknown name. -/
  | unknownDirective (name : String) (span : Span)
  /-- The pattern of a token or directive cannot be read. -/
  | badPattern (name : String) (span : Span)
  /-- A name is defined more than once. -/
  | duplicate (name : String) (span : Span)
  /-- There is no production rule. -/
  | noRule
  /-- A rule refers to a name that is not defined. -/
  | undefinedName (rule name : String) (span : Span)
  /-- A rule can call itself before anything else is read. -/
  | leftRecursive (rule : String) (span : Span)
  deriving DecidableEq, Repr

namespace GrammarError

/-- The wording of a fault. -/
def message : GrammarError → String
  | malformed _ => "invalid grammar description"
  | unknownDirective name _ => s!"unknown directive '@{name}'"
  | badPattern name _ => s!"invalid pattern for '{name}'"
  | duplicate name _ => s!"'{name}' is defined more than once"
  | noRule => "grammar description defines no production rule"
  | undefinedName rule name _ => s!"rule '{rule}' references undefined name '{name}'"
  | leftRecursive rule _ => s!"rule '{rule}' is left-recursive"

/-- Where in the description the fault lies. -/
def span? : GrammarError → Option Span
  | malformed offset => some (.point offset)
  | unknownDirective _ span => some span
  | badPattern _ span => some span
  | duplicate _ span => some span
  | noRule => none
  | undefinedName _ _ span => some span
  | leftRecursive _ span => some span

/-- What could be done about the fault. -/
def help? : GrammarError → Option String
  | unknownDirective _ _ => some "the only directive is @skip"
  | undefinedName _ _ _ => some "define the name or use one of IDENT, INT, BOOL"
  | leftRecursive _ _ => some "rewrite the recursion as a repetition \x7b ... \x7d"
  | _ => none

end GrammarError

end Retrace
