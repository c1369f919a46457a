import Retrace.Text.Basic

/-!
# Nesting of patterns

Groups, repetitions, bracket expressions and lists of more than one item nest in a pattern, and
they may do so only up to a limit.
-/

namespace Retrace.Pattern

/-- How many parts of a pattern may lie inside each other. -/
def nestLimit : Nat := 250

/-- Something read from a pattern, with the number of parts inside each other. -/
structure Nested (α : Type) where
  /-- What has been read. -/
  value : α
  /-- How many parts lie inside each other. -/
  depth : Nat := 0

namespace Nested

variable {α β : Type}

/-- What is read around a part, if it does not nest too deeply. -/
def wrap? (part : Nested α) (around : α → β) : Option (Nested β) :=
  if part.depth < nestLimit then some ⟨around part.value, part.depth + 1⟩ else none

/-- The depth of a list of parts: a list of more than one part is a part around them. -/
def depthOfAll (parts : List (Nested α)) : Nat :=
  match parts with
  | [] => 0
  | [single] => single.depth
  | parts => (parts.map depth).foldl max 0 + 1

/-- Several parts as one, if they do not nest too deeply. -/
def join? (parts : List (Nested α)) (all : List α → β) : Option (Nested β) :=
  let depth := depthOfAll parts
  if depth ≤ nestLimit then some ⟨all (parts.map value), depth⟩ else none

end Nested

end Retrace.Pattern
