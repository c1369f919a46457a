import Retrace.Proofs.Revision.Strand
import Retrace.Proofs.Text.Span
import Retrace.Revision.Editing

/-!
# Edits that are never refused

An edit is refused if its range leaves the text, cuts a character in two or begins ahead of the end
of the latest edit. None of this happens to whoever replaces spans that were found by reading the
text from left to right.

## Main definitions

* `Revision.UpTo`: the edits made to a text so far all end at an offset or ahead of it.

## Main results

* `Revision.UpTo.exists_replace`: an edit behind all earlier ones is accepted;
* `Weave.replace_revision`: an edit behind all strands adds a strand.
-/

namespace Retrace

variable {revision : Revision} {text : Text} {range : Span} {offset : Nat}

/-- A range in the text that does not begin ahead of the end of the latest edit is not refused. -/
theorem Revision.refusal?_eq_none_of_within (h : range.Within revision.base offset
      (Text.size revision.base))
    (hlast : ∀ previous ∈ revision.edits.getLast?, previous.before.stop ≤ offset) :
    revision.refusal? range = none := by
  have hinside : ¬ (range.stop < range.start ∨ Text.size revision.base < range.stop) := by
    have hle := h.le
    have hstop := h.le_stop
    omega
  have hboundary : ¬ (¬ revision.base.IsBoundary range.start ∨
      ¬ revision.base.IsBoundary range.stop) :=
    fun hnot => hnot.elim (· h.isBoundary_start) (· h.isBoundary_stop)
  rw [refusal?, if_neg hinside, if_neg hboundary]
  cases hprevious : revision.edits.getLast? with
  | none => rfl
  | some previous =>
    have hle := hlast previous hprevious
    exact if_neg (Nat.not_lt.2 (Nat.le_trans hle h.start_le))

/-- A revision of a text whose edits all end at an offset or ahead of it. -/
structure Revision.UpTo (text : Text) (offset : Nat) (revision : Revision) : Prop where
  /-- The revision started from the text. -/
  base_eq : revision.base = text
  /-- The latest edit does not end behind the offset. -/
  stop_le : ∀ previous ∈ revision.edits.getLast?, previous.before.stop ≤ offset

namespace Revision.UpTo

theorem ofText (text : Text) (offset : Nat) : (Revision.ofText text).UpTo text offset :=
  ⟨rfl, nofun⟩

/-- An edit behind all earlier ones is accepted. -/
theorem exists_replace (h : revision.UpTo text offset)
    (hrange : range.Within text offset (Text.size text)) (inserted : Text) (inside : Inside) :
    ∃ revised, revision.replace range inserted inside = .ok revised ∧
      revised.UpTo text range.stop := by
  obtain ⟨rfl, hlast⟩ := h
  refine ⟨revision.accept range inserted inside, ?_, rfl, fun previous hprevious => ?_⟩
  · rw [replace, refusal?_eq_none_of_within hrange hlast]
  · rw [accept, List.getLast?_concat] at hprevious
    obtain rfl := Option.some.inj hprevious
    exact Nat.le_refl _

end Revision.UpTo

/-- An edit behind all strands is accepted and adds a strand. -/
theorem Weave.replace_revision (strands : List Strand) (strand : Strand) (tail : Text) :
    (Weave.mk strands (strand.kept ++ (strand.removed ++ tail))).revision.replace
        ⟨Text.size (Strand.bases strands) + Text.size strand.kept,
          Text.size (Strand.bases strands) + Text.size strand.kept + Text.size strand.removed⟩
        strand.inserted strand.inside =
      .ok (extend strands strand tail).revision := by
  -- The range lies behind the strands, which are all that was edited so far.
  have hstands : Text.StandsAt (Strand.bases strands ++ (strand.kept ++ (strand.removed ++ tail)))
      (Text.size (Strand.bases strands) + Text.size strand.kept) strand.removed :=
    ⟨Strand.bases strands ++ strand.kept, tail, (List.append_assoc ..).symm, Text.size_append ..⟩
  have hwithin : Span.Within (Strand.bases strands ++ (strand.kept ++ (strand.removed ++ tail)))
      (Text.size (Strand.bases strands))
      (Text.size (Strand.bases strands ++ (strand.kept ++ (strand.removed ++ tail))))
      ⟨Text.size (Strand.bases strands) + Text.size strand.kept,
        Text.size (Strand.bases strands) + Text.size strand.kept + Text.size strand.removed⟩ :=
    { hstands.within with start_le := Nat.le_add_right .. }
  rw [Revision.replace, Revision.refusal?_eq_none_of_within hwithin, accept_revision]
  exact fun previous hprevious => Nat.le_of_eq (Strand.stop_of_getLast?_edits hprevious)

end Retrace
