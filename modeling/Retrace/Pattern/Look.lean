import Retrace.Pattern.Class

/-!
# Conditions on places

A pattern may ask for a kind of place in a text, such as the start of a line or the end of a word.
Such a condition takes no characters; it is judged by the characters on both sides of the place.
-/

namespace Retrace.Pattern

/-- How the word characters on both sides of a place are related. -/
inductive WordEdge where
  /-- A word begins or ends. -/
  | boundary
  /-- No word begins or ends. -/
  | noBoundary
  /-- A word begins. -/
  | start
  /-- A word ends. -/
  | stop
  /-- No word character lies before the place. -/
  | startHalf
  /-- No word character lies ahead. -/
  | stopHalf
  deriving Repr, DecidableEq

/-- A condition on a place. -/
inductive Look where
  /-- Nothing lies before the place. -/
  | textStart
  /-- Nothing lies ahead. -/
  | textStop
  /-- The start of a line; with `crlf` carriage returns end lines, too. -/
  | lineStart (crlf : Bool)
  /-- The end of a line; with `crlf` carriage returns end lines, too. -/
  | lineStop (crlf : Bool)
  /-- An edge of words, which consist of ASCII characters alone unless `unicode` holds. -/
  | word (edge : WordEdge) (unicode : Bool)
  deriving Repr, DecidableEq

namespace WordEdge

/-- The relation holds if a word character lies before the place and if one lies ahead. -/
def holds (before ahead : Bool) : WordEdge → Bool
  | boundary => before != ahead
  | noBoundary => before == ahead
  | start => !before && ahead
  | stop => before && !ahead
  | startHalf => !before
  | stopHalf => !ahead

end WordEdge

namespace Look

/-- The condition holds between two characters, which may be missing. -/
def holds (before ahead : Option Char) : Look → Bool
  | textStart => before.isNone
  | textStop => ahead.isNone
  | lineStart crlf =>
    before.isNone || before = some '\n' || (crlf && before = some '\r' && ahead ≠ some '\n')
  | lineStop crlf =>
    if crlf then
      ahead.isNone || ahead = some '\r' || (ahead = some '\n' && before ≠ some '\r')
    else ahead.isNone || ahead = some '\n'
  | word edge unicode =>
    edge.holds (before.any (Class.isWordChar unicode)) (ahead.any (Class.isWordChar unicode))

end Look

end Retrace.Pattern
