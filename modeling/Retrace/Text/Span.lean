/-!
# Spans

A span is a half-open range of byte offsets in one particular text. Spans may be reversed; such a
span is empty.
-/

namespace Retrace

/-- The bytes from `start` up to, but not including, `stop`. -/
structure Span where
  /-- Offset of the first byte. -/
  start : Nat
  /-- Offset just after the last byte. -/
  stop : Nat
  deriving DecidableEq, Repr, Inhabited

namespace Span

/-- The empty span at an offset. -/
def point (offset : Nat) : Span :=
  ⟨offset, offset⟩

/-- Number of bytes; a reversed span has none. -/
def length (span : Span) : Nat :=
  span.stop - span.start

/-- The span holds no byte. -/
def isEmpty (span : Span) : Bool :=
  span.stop ≤ span.start

/-- The smallest span that covers both spans. -/
def cover (a b : Span) : Span :=
  ⟨min a.start b.start, max a.stop b.stop⟩

/-- Move a span by a number of bytes towards the end of the text. -/
def shift (span : Span) (bytes : Nat) : Span :=
  ⟨span.start + bytes, span.stop + bytes⟩

/-- Show a span as `start..stop`. -/
def render (span : Span) : String :=
  s!"{span.start}..{span.stop}"

instance : ToString Span := ⟨render⟩

end Span

end Retrace
