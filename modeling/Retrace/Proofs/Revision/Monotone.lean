import Retrace.Proofs.Revision.Provenance
import Retrace.Proofs.Text.Order

/-!
# Tracing back keeps the order

Kept text is moved as a whole, an insertion stands for what it replaced, and both stand in the same
order before and after the edits. So a later offset is never traced to an earlier place
(`Reachable.retrace?_mono`), and diagnostics that begin one behind the other are moved back to where
they begin in the same order (`Reachable.retraceDiagnostic?_mono`).

The first holds strand by strand: what lies ahead of the end of an insertion is traced to no place
behind the text that was replaced (`le_of_retraceThrough_of_lt`), what lies behind it to no place
ahead (`le_of_retraceThrough`), and two offsets ahead of that end keep their order
(`retraceThrough_mono_of_lt`).
-/

namespace Retrace.Revision

variable {first second place place' : Nat}

/-! ## Along the strands -/

/-- An offset inside an insertion is traced to a place in what was replaced. -/
theorem retraceInside_mem {edit : Edit} (hproper : edit.before.start ≤ edit.before.stop)
    (hstop : first < edit.after.stop) (h : retraceInside edit first = some place) :
    edit.before.start ≤ place ∧ place ≤ edit.before.stop := by
  unfold retraceInside at h
  split at h
  · rename_i hkeeps
    obtain rfl := Option.some.inj h
    have hlength : edit.before.length = edit.after.length := of_decide_eq_true hkeeps
    simp only [Span.length] at hlength
    omega
  · split at h
    · obtain rfl := Option.some.inj h
      exact ⟨Nat.le_refl _, hproper⟩
    · cases h

/-- Two offsets inside an insertion are traced to places in the same order. -/
theorem retraceInside_mono {edit : Edit} (hle : first ≤ second)
    (h : retraceInside edit first = some place) (h' : retraceInside edit second = some place') :
    place ≤ place' := by
  unfold retraceInside at h h'
  split at h
  · rename_i hlength
    rw [if_pos hlength] at h'
    obtain rfl := Option.some.inj h
    obtain rfl := Option.some.inj h'
    omega
  · rename_i hlength
    rw [if_neg hlength] at h'
    split at h
    · rename_i hinside
      rw [hinside] at h'
      obtain rfl := Option.some.inj h
      obtain rfl := Option.some.inj h'
      exact Nat.le_refl _
    · cases h

/-- An offset in the first insertion, or where it begins, is traced to a place in what was
replaced. -/
theorem retraceThrough_mem {edit : Edit} {later : List Edit} {growth : Int}
    (hproper : edit.before.start ≤ edit.before.stop) (hstart : edit.after.start ≤ first)
    (hstop : first < edit.after.stop)
    (h : retraceThrough first growth (edit :: later) = some place) :
    edit.before.start ≤ place ∧ place ≤ edit.before.stop := by
  rcases Nat.lt_or_eq_of_le hstart with hstart | rfl
  · rw [retraceThrough_of_inside hstart hstop] at h
    exact retraceInside_mem hproper hstop h
  · rw [retraceThrough_start hstop] at h
    obtain rfl := Option.some.inj h
    exact ⟨Nat.le_refl _, hproper⟩

variable {before after : Nat} {strands : List Strand}

/-- What lies behind the start of some strands is traced to a place behind their start. -/
theorem le_of_retraceThrough (hle : after ≤ first)
    (h : retraceThrough first ((after : Int) - before) (Strand.edits before after strands) =
      some place) : before ≤ place := by
  induction strands generalizing before after with
  | nil =>
    rw [Strand.edits, retraceThrough, Option.some.injEq] at h
    omega
  | cons strand later ih =>
    rw [Strand.edits] at h
    rcases Nat.lt_or_ge first (strand.edit before after).after.start with hstart | hstart
    · rw [retraceThrough_of_lt hstart, Option.some.injEq] at h
      omega
    have hfrom : before ≤ (strand.edit before after).before.start := Nat.le_add_right ..
    rcases Nat.lt_or_ge first (strand.edit before after).after.stop with hstop | hstop
    · exact Nat.le_trans hfrom (retraceThrough_mem (Nat.le_add_right ..) hstart hstop h).1
    · rw [retraceThrough_of_stop_le (Nat.le_add_right ..) hstop] at h
      exact Nat.le_trans hfrom (Nat.le_trans (Nat.le_add_right ..) (ih hstop h))

/-- What lies ahead of an insertion is traced to a place ahead of what was replaced. -/
theorem le_start_of_retraceThrough {strand : Strand} {later : List Strand}
    (hlt : first < (strand.edit before after).after.start)
    (h : retraceThrough first ((after : Int) - before)
      (Strand.edits before after (strand :: later)) = some place) :
    place ≤ (strand.edit before after).before.start := by
  rw [Strand.edits, retraceThrough_of_lt hlt, Option.some.injEq] at h
  simp only [Strand.edit] at hlt ⊢
  omega

/-- What lies ahead of the end of an insertion is traced to a place in what was replaced or ahead of
it. -/
theorem le_of_retraceThrough_of_lt {strand : Strand} {later : List Strand}
    (hlt : first < (strand.edit before after).after.stop)
    (h : retraceThrough first ((after : Int) - before)
      (Strand.edits before after (strand :: later)) = some place) :
    place ≤ (strand.edit before after).before.stop := by
  rcases Nat.lt_or_ge first (strand.edit before after).after.start with hstart | hstart
  · exact Nat.le_trans (le_start_of_retraceThrough hstart h) (Nat.le_add_right ..)
  · exact (retraceThrough_mem (Nat.le_add_right ..) hstart hlt h).2

/-- Two offsets ahead of the end of the first insertion are traced to places in the same order. -/
theorem retraceThrough_mono_of_lt {strand : Strand} {later : List Strand} (hle : first ≤ second)
    (hlt : second < (strand.edit before after).after.stop)
    (h : retraceThrough first ((after : Int) - before)
      (Strand.edits before after (strand :: later)) = some place)
    (h' : retraceThrough second ((after : Int) - before)
      (Strand.edits before after (strand :: later)) = some place') : place ≤ place' := by
  rcases Nat.lt_trichotomy first (strand.edit before after).after.start with hahead | rfl | hinside
  · rcases Nat.lt_or_ge second (strand.edit before after).after.start with hstart | hstart
    · -- Both offsets lie in the text that was kept.
      rw [Strand.edits, retraceThrough_of_lt hahead, Option.some.injEq] at h
      rw [Strand.edits, retraceThrough_of_lt hstart, Option.some.injEq] at h'
      omega
    · -- What was replaced begins between the two places.
      exact Nat.le_trans (le_start_of_retraceThrough hahead h)
        (retraceThrough_mem (Nat.le_add_right ..) hstart hlt h').1
  · rw [Strand.edits, retraceThrough_start (Nat.lt_of_le_of_lt hle hlt), Option.some.injEq] at h
    rw [← h]
    exact (retraceThrough_mem (Nat.le_add_right ..) hle hlt h').1
  · rw [Strand.edits, retraceThrough_of_inside hinside (Nat.lt_of_le_of_lt hle hlt)] at h
    rw [Strand.edits, retraceThrough_of_inside (Nat.lt_of_lt_of_le hinside hle) hlt] at h'
    exact retraceInside_mono hle h h'

/-- A later offset is not traced to an earlier place. -/
theorem retraceThrough_mono (hle : first ≤ second)
    (h : retraceThrough first ((after : Int) - before) (Strand.edits before after strands) =
      some place)
    (h' : retraceThrough second ((after : Int) - before) (Strand.edits before after strands) =
      some place') : place ≤ place' := by
  induction strands generalizing before after with
  | nil =>
    rw [Strand.edits, retraceThrough, Option.some.injEq] at h h'
    omega
  | cons strand later ih =>
    rcases Nat.lt_or_ge second (strand.edit before after).after.stop with hlt | hbehind
    · exact retraceThrough_mono_of_lt hle hlt h h'
    rw [Strand.edits, retraceThrough_of_stop_le (Nat.le_add_right ..) hbehind] at h'
    rcases Nat.lt_or_ge first (strand.edit before after).after.stop with hlt | hbehind'
    · -- What was replaced stands between the two places.
      exact Nat.le_trans (le_of_retraceThrough_of_lt hlt h) (le_of_retraceThrough hbehind h')
    · rw [Strand.edits, retraceThrough_of_stop_le (Nat.le_add_right ..) hbehind'] at h
      exact ih h h'

/-! ## Whole revisions -/

namespace Reachable

variable {text : Text} {revision : Revision}

/-- A later offset of the current text is not traced to an earlier place. -/
theorem retrace?_mono (hrevision : Reachable text revision) (hle : first ≤ second)
    (h : revision.retrace? first = some place) (h' : revision.retrace? second = some place') :
    place ≤ place' := by
  obtain ⟨weave, rfl, -⟩ := hrevision.exists_weave
  have hmin : min first weave.revision.current.size ≤ min second weave.revision.current.size := by
    omega
  exact @retraceThrough_mono _ _ _ _ 0 0 weave.strands hmin h h'

/-- Diagnostics that begin one behind the other are moved back to where they begin in the same
order. -/
theorem retraceDiagnostic?_mono (hrevision : Reachable text revision)
    {diagnostic diagnostic' traced traced' : Diagnostic}
    (hline : 1 ≤ diagnostic.range.start.line)
    (hle : diagnostic.range.start ≤ diagnostic'.range.start)
    (h : revision.retraceDiagnostic? diagnostic = some traced)
    (h' : revision.retraceDiagnostic? diagnostic' = some traced') :
    traced.range.start ≤ traced'.range.start := by
  obtain ⟨-, hnone⟩ | ⟨place, _, hplace, htraced, -, -, hstart⟩ :=
    hrevision.retraceDiagnostic?_cases diagnostic
  · rw [h] at hnone
    cases hnone
  obtain ⟨-, hnone⟩ | ⟨place', _, hplace', htraced', -, -, hstart'⟩ :=
    hrevision.retraceDiagnostic?_cases diagnostic'
  · rw [h'] at hnone
    cases hnone
  obtain rfl := Option.some.inj (h.symm.trans htraced)
  obtain rfl := Option.some.inj (h'.symm.trans htraced')
  rw [hstart, hstart']
  have hoffset := Text.offset_mono hline hle revision.current
  exact Text.position_mono (hrevision.retrace?_mono hoffset hplace hplace') text

end Reachable

/-- A diagnostic that is moved back begins in the text before all edits. -/
theorem exists_position_of_retraceDiagnostic? {revision : Revision} {diagnostic traced : Diagnostic}
    (h : revision.retraceDiagnostic? diagnostic = some traced) :
    ∃ offset, traced.range.start = revision.base.position offset := by
  obtain ⟨span, -, rfl⟩ := Option.map_eq_some_iff.1 h
  exact ⟨span.start, rfl⟩

end Retrace.Revision
