import Retrace.Pattern.Footprint
import Retrace.Pattern.Machine
import Retrace.Pattern.Reader

/-!
# Patterns

A pattern describes pieces of text in the customary notation of regular expressions.
`Pattern.ofText?` reads one and gives nothing when the text is not a pattern or would take too much
room, and `Pattern.search?` tells where the leftmost match in a text ends. Of the matches that
begin at a place the preferred one counts: an earlier alternative before a later one, one more
repetition before stopping, or the other way round for a lazy repetition.
-/

namespace Retrace

/-- A description of pieces of text. -/
structure Pattern where
  /-- The machine that finds the pieces. -/
  machine : Pattern.Machine
  deriving Repr, Inhabited

namespace Pattern

/-- Read a pattern. -/
def ofText? (text : Text) : Option Pattern := do
  let term ← readTerm? text
  if term.fits then return ⟨.ofTerm term⟩ else none

/-- The number of characters before the end of the leftmost match in a text. -/
def search? (pattern : Pattern) (text : Text) : Option Nat :=
  pattern.machine.search? text

/-- A match ends within the text. -/
theorem search?_le {pattern : Pattern} {text : Text} {n : Nat}
    (h : pattern.search? text = some n) : n ≤ text.length :=
  Machine.search?_le h

end Pattern

end Retrace
