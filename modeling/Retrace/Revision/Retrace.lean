import Retrace.Diagnostic
import Retrace.Revision.Basic

/-!
# Tracing positions back through a revision

Every offset of the current text is traced to the offset of the text before all edits that it came
from, or to nothing when it lies strictly inside generated text. A span survives when its start
does; its end widens to the end of what was replaced when it falls inside an insertion.
-/

namespace Retrace.Revision

/-- Trace an offset that lies strictly inside the inserted text of an edit. -/
def retraceInside (edit : Edit) (offset : Nat) : Option Nat :=
  if edit.keepsLength then some (edit.before.start + (offset - edit.after.start))
  else match edit.inside with
    | .anchored => some edit.before.start
    | .discarded => none

/-- Worker of `retrace?`: go through the edits that are left, where `growth` is by how many bytes
the earlier ones moved the text behind them. -/
def retraceThrough (offset : Nat) : (growth : Int) → List Edit → Option Nat
  | growth, [] => some (offset - growth).toNat
  | growth, edit :: later =>
    if offset < edit.after.start then some (offset - growth).toNat
    else if edit.after.stop ≤ offset then
      retraceThrough offset (edit.after.stop - edit.before.stop : Int) later
    else if offset = edit.after.start then some edit.before.start
    else retraceInside edit offset

section FirstEdit

variable {edit : Edit} {later : List Edit} {offset : Nat} {growth : Int}

/-- Ahead of the first insertion the text was only moved. -/
theorem retraceThrough_of_lt (h : offset < edit.after.start) :
    retraceThrough offset growth (edit :: later) = some (offset - growth).toNat :=
  if_pos h

/-- An insertion that ends by the offset is passed. -/
theorem retraceThrough_of_stop_le (hproper : edit.after.start ≤ edit.after.stop)
    (h : edit.after.stop ≤ offset) :
    retraceThrough offset growth (edit :: later) =
      retraceThrough offset (edit.after.stop - edit.before.stop : Int) later := by
  rw [retraceThrough, if_neg (Nat.not_lt.2 (Nat.le_trans hproper h)), if_pos h]

/-- Where an insertion begins, what it replaced began. -/
theorem retraceThrough_start (h : edit.after.start < edit.after.stop) :
    retraceThrough edit.after.start growth (edit :: later) = some edit.before.start := by
  rw [retraceThrough, if_neg (Nat.lt_irrefl _), if_neg (Nat.not_le.2 h), if_pos rfl]

/-- Strictly inside the first insertion its edit decides. -/
theorem retraceThrough_of_inside (hstart : edit.after.start < offset)
    (hstop : offset < edit.after.stop) :
    retraceThrough offset growth (edit :: later) = retraceInside edit offset := by
  rw [retraceThrough, if_neg (Nat.lt_asymm hstart), if_neg (Nat.not_le.2 hstop),
    if_neg (Nat.ne_of_gt hstart)]

end FirstEdit

/-- Trace an offset of the current text back; offsets past its end count as its end. -/
def retrace? (revision : Revision) (offset : Nat) : Option Nat :=
  retraceThrough (min offset revision.current.size) 0 revision.edits

/-- The first edit whose inserted text strictly contains an offset. -/
def enclosing? (revision : Revision) (offset : Nat) : Option Edit :=
  revision.edits.find? fun edit => edit.after.start < offset ∧ offset < edit.after.stop

/-- Trace the end of a span back. -/
def retraceStop? (revision : Revision) (offset : Nat) : Option Nat :=
  match revision.enclosing? offset with
  | some edit =>
    if edit.inside = .anchored ∨ ¬ edit.keepsLength then some edit.before.stop
    else revision.retrace? offset
  | none => revision.retrace? offset

/-- Trace a span of the current text back. -/
def retraceSpan? (revision : Revision) (span : Span) : Option Span :=
  match revision.retrace? span.start with
  | some start => (revision.retraceStop? span.stop).map fun stop => ⟨start, max stop start⟩
  | none => none

/-- Trace a diagnostic about the current text back. -/
def retraceDiagnostic? (revision : Revision) (diagnostic : Diagnostic) : Option Diagnostic :=
  (revision.retraceSpan? (diagnostic.range.toSpan revision.current)).map fun span =>
    { diagnostic with range := Range.ofSpan revision.base span }

end Retrace.Revision
