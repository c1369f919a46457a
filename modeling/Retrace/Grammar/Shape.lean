import Retrace.Pattern.Basic

/-!
# Shapes

A shape tells what a token looks like, or what may stand between tokens. A few shapes are built in;
all others are given by patterns. The piece of a shape at the start of a text lies within the text
(`length?_le`).
-/

namespace Retrace

/-- What a token looks like. -/
inductive Shape where
  /-- One or more blanks. -/
  | blanks
  /-- A name: an ASCII letter or the low line, then ASCII letters, digits and low lines. -/
  | name
  /-- A number: zeros alone, or decimal digits without a leading zero. -/
  | number
  /-- A truth value. -/
  | truth
  /-- Whatever a pattern describes. -/
  | pattern (pattern : Pattern)
  deriving Repr

namespace Shape

/-- The number of leading characters of a kind, if there are any. -/
def run? (isOfKind : Char → Bool) (text : Text) : Option Nat :=
  match text.takeWhile isOfKind with
  | [] => none
  | kept => some kept.length

/-- The length of a word, if the text begins with it. -/
def word? (word text : Text) : Option Nat :=
  if word.isPrefixOf text then some word.length else none

/-- An ASCII letter or the low line. -/
def isNameStart (c : Char) : Bool :=
  c.isAlpha || c = '_'

/-- The number of characters up to the end of the piece at the start of a text, if there is one. -/
def length? (shape : Shape) (text : Text) : Option Nat :=
  match shape with
  | .blanks => run? Text.isBlank text
  | .name =>
    if text.head?.any isNameStart then run? (fun c => isNameStart c || c.isDigit) text else none
  | .number => (run? (· = '0') text).or (run? Char.isDigit text)
  | .truth => (word? "true".toList text).or (word? "false".toList text)
  | .pattern described => described.search? text

theorem run?_le {isOfKind : Char → Bool} {text : Text} {n : Nat}
    (h : run? isOfKind text = some n) : n ≤ text.length := by
  unfold run? at h
  split at h
  · simp at h
  · obtain rfl := Option.some.inj h
    exact (List.takeWhile_prefix _).length_le

theorem word?_le {word text : Text} {n : Nat} (h : word? word text = some n) :
    n ≤ text.length := by
  unfold word? at h
  split at h
  · rename_i hprefix
    obtain rfl := Option.some.inj h
    exact (List.isPrefixOf_iff_prefix.1 hprefix).length_le
  · simp at h

/-- The piece at the start of a text lies within it. -/
theorem length?_le {shape : Shape} {text : Text} {n : Nat} (h : shape.length? text = some n) :
    n ≤ text.length := by
  cases shape with
  | blanks => exact run?_le h
  | name =>
    simp only [length?] at h
    split at h
    · exact run?_le h
    · simp at h
  | number => exact (Option.or_eq_some_iff.1 h).elim run?_le fun h => run?_le h.2
  | truth => exact (Option.or_eq_some_iff.1 h).elim word?_le fun h => word?_le h.2
  | pattern described => exact Pattern.search?_le h

end Shape

end Retrace
