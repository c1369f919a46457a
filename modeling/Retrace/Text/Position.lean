import Retrace.Text.Basic
import Retrace.Text.Span

/-!
# Lines and columns

Positions on the screen are pairs of a line and a column, both counted from one; a column counts
characters and a line ends before its line feed. `Text.position` and `Text.offset` convert between
byte offsets and positions of one text, and clamp what lies outside it. A `Range` is a pair of
positions, the screen form of a `Span`.
-/

namespace Retrace

/-- A line and a column, both counted from one. -/
structure Position where
  /-- Line number. -/
  line : Nat := 1
  /-- Column number, in characters. -/
  column : Nat := 1
  deriving DecidableEq, Repr, Inhabited

namespace Position

/-- Show a position as `line:column`. -/
def render (position : Position) : String :=
  s!"{position.line}:{position.column}"

instance : ToString Position := ⟨render⟩

end Position

namespace Text

/-- Number of lines: one more than the number of line feeds. -/
def lineCount (text : Text) : Nat :=
  text.count '\n' + 1

/-- Worker of `position`: `here` is the position of the text that is left. -/
def positionFrom (here : Position) : Nat → Text → Position
  | _, [] => here
  | bytes, c :: rest =>
    if c.utf8Size ≤ bytes then
      positionFrom (if c = '\n' then ⟨here.line + 1, 1⟩ else ⟨here.line, here.column + 1⟩)
        (bytes - c.utf8Size) rest
    else here

/-- The position of a byte offset. An offset inside a character counts as that character's start,
one past the end as the end. -/
def position (text : Text) (offset : Nat) : Position :=
  positionFrom ⟨1, 1⟩ offset text

/-- Worker of `offset`: `passed` is the byte offset of the text that is left, and the wanted place
is relative to it. -/
def offsetFrom (passed : Nat) : (line column : Nat) → Text → Nat
  | _, _, [] => passed
  | line, column, c :: rest =>
    if line ≤ 1 then
      if column ≤ 1 ∨ c = '\n' then passed
      else offsetFrom (passed + c.utf8Size) line (column - 1) rest
    else
      offsetFrom (passed + c.utf8Size) (if c = '\n' then line - 1 else line) column rest

/-- The byte offset of a position. A column past the end of its line counts as the line's end, a
line past the last one as the end of the text, and zero as one. -/
def offset (text : Text) (position : Position) : Nat :=
  offsetFrom 0 position.line position.column text

end Text

/-- Two positions: where something begins and where it has ended. -/
structure Range where
  /-- Where it begins. -/
  start : Position := {}
  /-- Where it has ended. -/
  stop : Position := {}
  deriving DecidableEq, Repr, Inhabited

namespace Range

/-- The range that covers a span of a text. -/
def ofSpan (text : Text) (span : Span) : Range :=
  ⟨text.position span.start, text.position span.stop⟩

/-- The span that a range covers in a text; a reversed range gives the empty span at its start. -/
def toSpan (text : Text) (range : Range) : Span :=
  let start := text.offset range.start
  ⟨start, max (text.offset range.stop) start⟩

end Range

end Retrace
