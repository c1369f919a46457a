import Retrace.Grammar.Description.Lexeme
import Retrace.Grammar.Error
import Retrace.Grammar.Expr

/-!
# Grammar descriptions

A grammar description is a list of definitions, each closed by a semicolon:

* `NAME = /pattern/;` defines a token,
* `name = alternatives;` defines a production rule,
* `@name = /pattern/;` is a directive.

Alternatives are separated by bars and consist of one or more terms: names, quoted texts, and
alternatives in brackets (optional), braces (any number of times) or parentheses (grouping).
`Description.read` reads a description word by word; it keeps the brackets that are still open on a
stack and stops at the first word that cannot stand where it stands.
-/

namespace Retrace.Description

/-- A name that an expression refers to, and where it does. -/
structure Reference where
  /-- The name. -/
  name : String
  /-- Where it is written. -/
  span : Span := .point 0
  deriving DecidableEq, Repr

/-- An expression as it is written. -/
abbrev RawExpr := Expr Reference Unit

/-- A quoted text in an expression. -/
def quoted (text : String) : RawExpr :=
  .literal text.toList

/-- A name in an expression. -/
def named (name : String) : RawExpr :=
  .call { name }

/-- What a definition defines. -/
inductive Body where
  /-- A token, by its pattern. -/
  | token (pattern : Text)
  /-- A production rule, by its alternatives. -/
  | rule (expr : RawExpr)
  /-- A directive, by its pattern. -/
  | directive (pattern : Text)
  deriving Repr

/-- A definition of a grammar description. -/
structure Definition where
  /-- The name that is defined. -/
  name : String
  /-- What the name stands for. -/
  body : Body
  /-- Where the definition is written, its semicolon included. -/
  span : Span := .point 0
  deriving Repr

/-- The kinds of brackets that terms may be enclosed in. -/
inductive Bracket where
  /-- Square brackets: optional. -/
  | square
  /-- Braces: any number of times. -/
  | curly
  /-- Parentheses: grouping. -/
  | round
  deriving DecidableEq, Repr

namespace Bracket

/-- The bracket that a character opens. -/
def opened? : Char → Option Bracket
  | '[' => some square
  | '\x7b' => some curly
  | '(' => some round
  | _ => none

/-- The bracket that a character closes. -/
def closed? : Char → Option Bracket
  | ']' => some square
  | '\x7d' => some curly
  | ')' => some round
  | _ => none

/-- What alternatives in a bracket stand for. -/
def wrap : Bracket → RawExpr → RawExpr
  | square, expr => .optional expr
  | curly, expr => .loop () expr
  | round, expr => expr

end Bracket

/-- Alternatives that are not complete yet. -/
structure Nest where
  /-- The finished alternatives, the latest first. -/
  branches : List RawExpr := []
  /-- The terms of the current alternative, the latest first. -/
  terms : List RawExpr := []
  deriving Repr

namespace Nest

/-- Add a term to the current alternative. -/
def add (nest : Nest) (term : RawExpr) : Nest :=
  { nest with terms := term :: nest.terms }

/-- Finish the current alternative and start another one. -/
def alternate (nest : Nest) : Nest :=
  ⟨.seqOf nest.terms.reverse :: nest.branches, []⟩

/-- The alternatives as an expression. -/
def close (nest : Nest) : RawExpr :=
  .eitherOf nest.alternate.branches.reverse

end Nest

/-- How much of the current definition has been read. -/
inductive Progress where
  /-- Nothing. -/
  | idle
  /-- The sign of a directive. -/
  | sign (start : Nat)
  /-- The sign and the name of a directive. -/
  | directive (start : Nat) (name : String)
  /-- A directive up to its equals sign. -/
  | directiveEquals (start : Nat) (name : String)
  /-- A directive up to its pattern. -/
  | directivePattern (start : Nat) (name : String) (pattern : Text)
  /-- A name. -/
  | named (start : Nat) (name : String)
  /-- A name and an equals sign. -/
  | equals (start : Nat) (name : String)
  /-- A token up to its pattern, which begins at `at`. -/
  | token (start : Nat) (name : String) (pattern : Text) (patternStart : Nat)
  /-- A rule up to somewhere in its alternatives; `outer` holds the brackets that are open around
  the innermost alternatives, each with what stands before it. -/
  | rule (start : Nat) (name : String) (nest : Nest) (outer : List (Bracket × Nest))

/-- Where to say that a pattern is missing, if this word stands in its place. -/
def missingPattern (word : Placed) : Nat :=
  match word.lexeme with
  | .openPattern true => word.span.start + 1
  | _ => word.span.start

/-- Read one more word of a rule's alternatives. A semicolon completes the rule. -/
def readTerm (start : Nat) (name : String) (nest : Nest) (outer : List (Bracket × Nest))
    (word : Placed) : Except Nat (Progress × Option Definition) :=
  let fault := .error word.span.start
  match word.lexeme with
  | .name target =>
    .ok (.rule start name (nest.add (.call ⟨String.ofList target, word.span⟩)) outer, none)
  | .literal text => .ok (.rule start name (nest.add (.literal text)) outer, none)
  | .mark c =>
    match Bracket.opened? c with
    | some bracket => .ok (.rule start name {} ((bracket, nest) :: outer), none)
    | none =>
      if nest.terms.isEmpty then fault
      else if c = '|' then .ok (.rule start name nest.alternate outer, none)
      else match outer with
        | [] =>
          if c = ';' then
            .ok (.idle, some ⟨name, .rule nest.close, ⟨start, word.span.stop⟩⟩)
          else fault
        | (bracket, around) :: outer =>
          if Bracket.closed? c = some bracket then
            .ok (.rule start name (around.add (bracket.wrap nest.close)) outer, none)
          else fault
  | _ => fault

/-- Read one more word. -/
def readWord (progress : Progress) (word : Placed) : Except Nat (Progress × Option Definition) :=
  match progress, word.lexeme with
  | .idle, .mark '@' => .ok (.sign word.span.start, none)
  | .idle, .name name => .ok (.named word.span.start (String.ofList name), none)
  | .idle, .stop => .ok (.idle, none)
  | .idle, _ => .error word.span.start
  | .sign start, .name name => .ok (.directive start (String.ofList name), none)
  | .sign _, _ => .error word.span.start
  | .directive start name, .mark '=' => .ok (.directiveEquals start name, none)
  | .directive start _, _ => .error start
  | .directiveEquals start name, .pattern text => .ok (.directivePattern start name text, none)
  | .directiveEquals _ _, _ => .error (missingPattern word)
  | .directivePattern start name text, .mark ';' =>
    .ok (.idle, some ⟨name, .directive text, ⟨start, word.span.stop⟩⟩)
  | .directivePattern start _ _, _ => .error start
  | .named start name, .mark '=' => .ok (.equals start name, none)
  | .named start _, _ => .error start
  | .equals start name, .pattern text => .ok (.token start name text word.span.start, none)
  | .equals _ _, .openPattern _ => .error (missingPattern word)
  | .equals start name, _ => readTerm start name {} [] word
  | .token start name text _, .mark ';' =>
    .ok (.idle, some ⟨name, .token text, ⟨start, word.span.stop⟩⟩)
  | .token _ _ _ patternStart, _ => .error patternStart
  | .rule start name nest outer, _ => readTerm start name nest outer word

/-- Read the words that are left; `read` holds the definitions read so far, the latest first. -/
def readWords (progress : Progress) (read : List Definition) :
    List Placed → Except Nat (List Definition)
  | [] => .ok read.reverse
  | word :: later =>
    match readWord progress word with
    | .ok (progress, some definition) => readWords progress (definition :: read) later
    | .ok (progress, none) => readWords progress read later
    | .error offset => .error offset

/-- Read a grammar description into its definitions. -/
def read (text : Text) : Except GrammarError (List Definition) :=
  (readWords .idle [] (lex text)).mapError .malformed

end Retrace.Description
