import Retrace.Grammar.Description
import Retrace.Grammar.Plan

/-!
# Compiling grammars

`Grammar.ofDefinitions` turns the definitions of a description into a grammar, or says what is
wrong with the first faulty one: patterns are read, names are resolved to tokens and rules, which
may be defined in any order, and left recursion is refused. The tokens `IDENT`, `INT` and `BOOL`
need no definition.
-/

namespace Retrace

namespace Grammar

open Description

/-- The tokens that need no definition. -/
def builtinTokens : List Token := [⟨"IDENT", .name⟩, ⟨"INT", .number⟩, ⟨"BOOL", .truth⟩]

/-- Read a pattern that matches at the place it is tried at. The pattern stands in a group behind
an anchor, so one that closes this group changes what the anchor applies to. -/
def anchored? (pattern : Text) : Option Shape :=
  (Pattern.ofText? ("^(?:".toList ++ pattern ++ [')'])).map .pattern

/-- A production rule as it is written. -/
structure RawRule where
  /-- The name of the rule. -/
  name : String
  /-- Its alternatives. -/
  body : RawExpr
  /-- Where it is written. -/
  span : Span

/-- What has been collected from the definitions so far. -/
structure Collected where
  /-- The tokens, in order of definition. -/
  tokens : List Token
  /-- The rules, in order of definition. -/
  rules : List RawRule
  /-- What may stand between tokens. -/
  skip : Shape

namespace Collected

/-- The number of the token with a name. -/
def token? (collected : Collected) (name : String) : Option Nat :=
  collected.tokens.findIdx? fun token => token.name = name

/-- The number of the rule with a name. -/
def rule? (collected : Collected) (name : String) : Option Nat :=
  collected.rules.findIdx? fun rule => rule.name = name

/-- Add what a definition defines. -/
def add (collected : Collected) (definition : Definition) : Except GrammarError Collected :=
  let name := definition.name
  match definition.body with
  | .directive pattern =>
    if name ≠ "skip" then .error (.unknownDirective name definition.span)
    else match anchored? pattern with
      | some skip => .ok { collected with skip }
      | none => .error (.badPattern "@skip" definition.span)
  | .token pattern =>
    if (collected.token? name).isSome then .error (.duplicate name definition.span)
    else match anchored? pattern with
      | some shape => .ok { collected with tokens := collected.tokens ++ [⟨name, shape⟩] }
      | none => .error (.badPattern name definition.span)
  | .rule body =>
    if (collected.token? name).isSome ∨ (collected.rule? name).isSome then
      .error (.duplicate name definition.span)
    else .ok { collected with rules := collected.rules ++ [⟨name, body, definition.span⟩] }

/-- Nothing but the tokens that need no definition, with blanks between tokens. -/
def start : Collected where
  tokens := builtinTokens
  rules := []
  skip := .blanks

/-- What a name stands for; tokens come before rules. -/
def target? (collected : Collected) (name : String) : Option Target :=
  match collected.token? name with
  | some index => some (.token index)
  | none => (collected.rule? name).map .rule

mutual

/-- Resolve the names in an expression of a rule and label its repetitions, inner ones first; `used`
labels have been given before. Gives the number of labels used in the end, too. -/
def resolve (collected : Collected) (rule : String) (used : Nat) :
    RawExpr → Except GrammarError (Production × Nat)
  | .literal text => .ok (.literal text, used)
  | .call reference =>
    match collected.target? reference.name with
    | some target => .ok (.call target, used)
    | none => .error (.undefinedName rule reference.name reference.span)
  | .seq items =>
    match resolveAll collected rule used items with
    | .ok (items, used) => .ok (.seq items, used)
    | .error fault => .error fault
  | .either branches =>
    match resolveAll collected rule used branches with
    | .ok (branches, used) => .ok (.either branches, used)
    | .error fault => .error fault
  | .optional body =>
    match resolve collected rule used body with
    | .ok (body, used) => .ok (.optional body, used)
    | .error fault => .error fault
  | .loop () body =>
    match resolve collected rule used body with
    | .ok (body, used) => .ok (.loop (used + 1) body, used + 1)
    | .error fault => .error fault

/-- Resolve the names in several expressions of a rule, one after the other. -/
def resolveAll (collected : Collected) (rule : String) (used : Nat) :
    List RawExpr → Except GrammarError (List Production × Nat)
  | [] => .ok ([], used)
  | expr :: others =>
    match resolve collected rule used expr with
    | .ok (expr, used) =>
      match resolveAll collected rule used others with
      | .ok (others, used) => .ok (expr :: others, used)
      | .error fault => .error fault
    | .error fault => .error fault

end

/-- Resolve the names in several rules, one after the other. -/
def resolveRules (collected : Collected) (used : Nat) :
    List RawRule → Except GrammarError (List Rule)
  | [] => .ok []
  | rule :: others =>
    match resolve collected rule.name used rule.body with
    | .ok (body, used) =>
      match resolveRules collected used others with
      | .ok others => .ok (⟨rule.name, body⟩ :: others)
      | .error fault => .error fault
    | .error fault => .error fault

end Collected

/-- Refuse rules that reach themselves by calls on the left. The fault is about the first of them as
it is written. -/
def checkLeftRecursion (written : List RawRule) (rules : List Rule) : Except GrammarError Unit :=
  match LeftRecursion.first? (rules.map Rule.body) with
  | some index =>
    match written[index]? with
    | some rule => .error (.leftRecursive rule.name rule.span)
    | none => .ok ()
  | none => .ok ()

/-- Compile the definitions of a description. -/
def ofDefinitions (definitions : List Definition) : Except GrammarError Grammar := do
  let collected ← definitions.foldlM Collected.add Collected.start
  if collected.rules.isEmpty then throw .noRule
  for rule in collected.rules do
    if (collected.token? rule.name).isSome then throw (.duplicate rule.name rule.span)
  let rules ← collected.resolveRules 0 collected.rules
  checkLeftRecursion collected.rules rules
  return {
    tokens := collected.tokens.toArray
    rules := rules.toArray
    skip := collected.skip
    plan := Plan.ofRules rules }

/-- Compile a grammar description. -/
def compile (description : Text) : Except GrammarError Grammar := do
  ofDefinitions (← Description.read description)

end Grammar

end Retrace
