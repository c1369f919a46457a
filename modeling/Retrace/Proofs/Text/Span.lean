import Retrace.Proofs.Text.Boundary
import Retrace.Text.Span

/-!
# Spans of a text

A span that was found by reading a text is not reversed and begins and ends between two characters.
Several of them that were found from left to right do not overlap.

## Main definitions

* `Span.Within`: a span lies between two offsets of a text;
* `Span.Ascending`: spans of a text lie one behind the other;
* `Text.StandsAt`: a part of a text begins at an offset of it.
-/

namespace Retrace

namespace Span

/-- A span begins and ends between two characters of a text, not ahead of one offset and not behind
another. -/
structure Within (text : Text) (start stop : Nat) (span : Span) : Prop where
  /-- The span does not begin ahead of the first offset. -/
  start_le : start ≤ span.start
  /-- The span is not reversed. -/
  le : span.start ≤ span.stop
  /-- The span does not end behind the second offset. -/
  le_stop : span.stop ≤ stop
  /-- The span begins between two characters. -/
  isBoundary_start : text.IsBoundary span.start
  /-- The span ends between two characters. -/
  isBoundary_stop : text.IsBoundary span.stop

namespace Within

variable {text : Text} {start stop : Nat} {span other : Span}

theorem mono (h : span.Within text start stop) {start' stop' : Nat} (hstart : start' ≤ start)
    (hstop : stop ≤ stop') : span.Within text start' stop' :=
  { h with
    start_le := Nat.le_trans hstart h.start_le
    le_stop := Nat.le_trans h.le_stop hstop }

theorem point (hle : start ≤ stop) (hstart : text.IsBoundary start) :
    (Span.point start).Within text start stop :=
  ⟨Nat.le_refl _, Nat.le_refl _, hle, hstart, hstart⟩

/-- What covers two spans lies where both of them lie. -/
theorem cover (h : span.Within text start stop) (h' : other.Within text start stop) :
    (span.cover other).Within text start stop where
  start_le := Nat.le_min.2 ⟨h.start_le, h'.start_le⟩
  le := Nat.le_trans (Nat.min_le_left ..) (Nat.le_trans h.le (Nat.le_max_left ..))
  le_stop := Nat.max_le.2 ⟨h.le_stop, h'.le_stop⟩
  isBoundary_start := by
    rcases Nat.le_total span.start other.start with hle | hle
    · rw [Span.cover, Nat.min_eq_left hle]
      exact h.isBoundary_start
    · rw [Span.cover, Nat.min_eq_right hle]
      exact h'.isBoundary_start
  isBoundary_stop := by
    rcases Nat.le_total span.stop other.stop with hle | hle
    · rw [Span.cover, Nat.max_eq_right hle]
      exact h'.isBoundary_stop
    · rw [Span.cover, Nat.max_eq_left hle]
      exact h.isBoundary_stop

/-- What covers several spans lies where all of them lie. -/
theorem foldl_cover {others : List Span} (h : span.Within text start stop)
    (hothers : ∀ other ∈ others, other.Within text start stop) :
    (others.foldl Span.cover span).Within text start stop := by
  induction others generalizing span with
  | nil => exact h
  | cons other others ih =>
    obtain ⟨hother, hothers⟩ := List.forall_mem_cons.1 hothers
    exact ih (h.cover hother) hothers

end Within

/-- A cover begins where the first span does or ahead of it. -/
theorem start_foldl_cover_le (first : Span) (others : List Span) :
    (others.foldl Span.cover first).start ≤ first.start := by
  induction others generalizing first with
  | nil => exact Nat.le_refl _
  | cons other others ih => exact Nat.le_trans (ih (first.cover other)) (Nat.min_le_left ..)

/-- A cover begins where the first span does if no other span begins ahead of it. -/
theorem start_foldl_cover {first : Span} {others : List Span}
    (h : ∀ other ∈ others, first.start ≤ other.start) :
    (others.foldl Span.cover first).start = first.start := by
  induction others generalizing first with
  | nil => rfl
  | cons other others ih =>
    obtain ⟨hother, hothers⟩ := List.forall_mem_cons.1 h
    have hmin : (first.cover other).start = first.start := Nat.min_eq_left hother
    rw [List.foldl_cons, ih (by rwa [hmin]), hmin]

/-- Spans lie in a text, one behind the other. -/
structure Ascending (text : Text) (spans : List Span) : Prop where
  /-- The spans lie in the text. -/
  within : ∀ span ∈ spans, span.Within text 0 (Text.size text)
  /-- No span begins ahead of the end of one before. -/
  pairwise : spans.Pairwise fun span later => span.stop ≤ later.start

namespace Ascending

variable {text : Text} {span : Span} {spans others : List Span}

theorem nil (text : Text) : Ascending text [] :=
  ⟨nofun, .nil⟩

theorem cons_iff : Ascending text (span :: spans) ↔
    span.Within text 0 (Text.size text) ∧ (∀ later ∈ spans, span.stop ≤ later.start) ∧
      Ascending text spans := by
  constructor
  · rintro ⟨hwithin, hpairwise⟩
    obtain ⟨hspan, hspans⟩ := List.forall_mem_cons.1 hwithin
    obtain ⟨hlater, hpairwise⟩ := List.pairwise_cons.1 hpairwise
    exact ⟨hspan, hlater, hspans, hpairwise⟩
  · rintro ⟨hspan, hlater, h⟩
    exact ⟨List.forall_mem_cons.2 ⟨hspan, h.within⟩, List.pairwise_cons.2 ⟨hlater, h.pairwise⟩⟩

end Ascending

/-- Behind a front, a span lies as far from the end of the front as it lay from the start. -/
theorem Within.shift {back : Text} {span : Span} (h : span.Within back 0 (Text.size back))
    (front : Text) : (span.shift (Text.size front)).Within (front ++ back) (Text.size front)
      (Text.size (front ++ back)) where
  start_le := Nat.le_add_left ..
  le := Nat.add_le_add_right h.le _
  le_stop := by
    rw [Text.size_append, Nat.add_comm]
    exact Nat.add_le_add_right h.le_stop _
  isBoundary_start := by
    show Text.IsBoundary _ (span.start + Text.size front)
    rw [Nat.add_comm]
    exact Text.isBoundary_append.2 h.isBoundary_start
  isBoundary_stop := by
    show Text.IsBoundary _ (span.stop + Text.size front)
    rw [Nat.add_comm]
    exact Text.isBoundary_append.2 h.isBoundary_stop

end Span

/-! ## Parts of a text -/

/-- A part of a text begins at an offset of it. -/
def Text.StandsAt (text : Text) (offset : Nat) (part : Text) : Prop :=
  ∃ front back, text = front ++ (part ++ back) ∧ size front = offset

namespace Text.StandsAt

variable {text first later : Text} {offset : Nat}

/-- So does the first half of the part. -/
theorem head (h : text.StandsAt offset (first ++ later)) : text.StandsAt offset first := by
  obtain ⟨front, back, htext, hsize⟩ := h
  exact ⟨front, later ++ back, by rw [htext, List.append_assoc], hsize⟩

/-- The second half of the part begins behind the first. -/
theorem tail (h : text.StandsAt offset (first ++ later)) :
    text.StandsAt (offset + size first) later := by
  obtain ⟨front, back, htext, rfl⟩ := h
  refine ⟨front ++ first, back, ?_, size_append ..⟩
  rw [htext, List.append_assoc, List.append_assoc]

/-- The span of a part lies in the text. -/
theorem within (h : text.StandsAt offset first) :
    (Span.mk offset (offset + size first)).Within text 0 (size text) := by
  obtain ⟨front, back, rfl, rfl⟩ := h
  refine ⟨Nat.zero_le _, Nat.le_add_right .., ?_, isBoundary_size_append .., ?_⟩
  · rw [size_append, size_append, ← Nat.add_assoc]
    exact Nat.le_add_right ..
  · exact isBoundary_append.2 (isBoundary_size_append ..)

end Text.StandsAt

end Retrace
