import Retrace.Proofs.Revision.Growth

/-!
# Spans of kept text

A span of the current text that lies between two insertions was kept as a whole: its bytes stood in
one piece before all edits, outside everything that was replaced. Its start is traced back to where
this piece began. Its end is where the text behind the span begins as well, so it is traced back to
where that text stood: behind the piece itself, unless something was removed in between and left
nothing. Then what was removed is taken for a part of the span.

## Main definitions

* `Revision.Clears`: a span lies between two insertions;
* `Revision.KeepsByte`: a byte was kept, and stands at one offset now and stood at another before;
* `Revision.leavingAt`, `Revision.removed`: edits that left nothing at an offset, and how much some
  edits removed.

## Main results

* `Reachable.outside_of_keepsByte`: kept bytes stood outside everything that was replaced;
* `Reachable.exists_keepsByte`: the bytes of a span between insertions stood in one piece;
* `retraceSpan?_of_clears`: where a span between insertions is traced back to;
* `retraceSpan?_joinedWords`: the span in front of a deletion is traced back to too much.
-/

namespace Retrace

/-- What some strands replaced does not begin ahead of where they stood before all edits. -/
theorem Strand.le_before_start_of_mem_edits {before after : Nat} {strands : List Strand}
    {edit : Edit} (h : edit ∈ edits before after strands) : before ≤ edit.before.start := by
  induction strands generalizing before after with
  | nil => cases h
  | cons strand others ih =>
    rcases List.mem_cons.1 h with rfl | h
    · exact Nat.le_add_right ..
    · have hle := ih h
      simp only [Strand.edit] at hle
      omega

namespace Revision

/-- Every insertion ends ahead of a span of the current text or begins behind it. -/
def Clears (revision : Revision) (span : Span) : Prop :=
  ∀ edit ∈ revision.edits, edit.after.stop ≤ span.start ∨ span.stop ≤ edit.after.start

/-- No edit touched a byte: it is one of a kept character, stood at the offset `before` and stands
at `after` now. -/
def KeepsByte (revision : Revision) (after before : Nat) : Prop :=
  ∃ c first first' byte, revision.Keeps c first first' ∧ byte < c.utf8Size ∧
    after = first + byte ∧ before = first' + byte

/-- The edits that inserted nothing, at an offset of the current text. -/
def leavingAt (edits : List Edit) (offset : Nat) : List Edit :=
  edits.filter fun edit => edit.after = .point offset

/-- How many bytes some edits replaced. -/
def removed : List Edit → Nat
  | [] => 0
  | edit :: later => edit.before.length + removed later

/-- Nothing was replaced exactly if no edit replaced anything. -/
theorem removed_eq_zero_iff {edits : List Edit} :
    removed edits = 0 ↔ ∀ edit ∈ edits, edit.before.length = 0 := by
  induction edits with
  | nil => simp [removed]
  | cons edit later ih => rw [removed, Nat.add_eq_zero_iff, ih, List.forall_mem_cons]

theorem mem_leavingAt {edits : List Edit} {offset : Nat} {edit : Edit} :
    edit ∈ leavingAt edits offset ↔ edit ∈ edits ∧ edit.after = .point offset := by
  rw [leavingAt, List.mem_filter, decide_eq_true_eq]

/-- From the start of a span between insertions to its end, the text moves by what was removed at
the end without replacement. -/
theorem growth_endingBy_stop {edits : List Edit} {span : Span} (hlt : span.start < span.stop)
    (hproper : ∀ edit ∈ edits, edit.after.start ≤ edit.after.stop)
    (hlength : ∀ edit ∈ edits, edit.after.length = Text.size edit.inserted)
    (hclears : ∀ edit ∈ edits, edit.after.stop ≤ span.start ∨ span.stop ≤ edit.after.start) :
    growth (endingBy edits span.stop) =
      growth (endingBy edits span.start) - removed (leavingAt edits span.stop) := by
  induction edits with
  | nil => rfl
  | cons edit later ih =>
    obtain ⟨hle, hproper⟩ := List.forall_mem_cons.1 hproper
    obtain ⟨hsize, hlength⟩ := List.forall_mem_cons.1 hlength
    obtain ⟨hclear, hclears⟩ := List.forall_mem_cons.1 hclears
    have hlater := ih hproper hlength hclears
    rcases hclear with hahead | hbehind
    · -- An edit that ends ahead of the span ends by either offset.
      have hnot : edit.after ≠ .point span.stop := by
        intro heq
        rw [heq] at hahead
        exact absurd hahead (Nat.not_le.2 hlt)
      rw [endingBy_cons hahead, endingBy_cons (Nat.le_trans hahead (Nat.le_of_lt hlt)), leavingAt,
        List.filter_cons_of_neg (by simpa using hnot), growth_cons, growth_cons, hlater, leavingAt]
      omega
    · have hstart : endingBy (edit :: later) span.start = endingBy later span.start :=
        List.filter_cons_of_neg (by simp only [decide_eq_true_eq]; omega)
      by_cases hpoint : edit.after = .point span.stop
      · -- It removed something where the span ends, and left nothing.
        have hnothing : Text.size edit.inserted = 0 := by
          rw [← hsize, hpoint, Span.length, Span.point, Nat.sub_self]
        have hstop : edit.after.stop ≤ span.stop := by rw [hpoint]; exact Nat.le_refl _
        rw [endingBy_cons hstop, hstart, leavingAt,
          List.filter_cons_of_pos (by simpa using hpoint), growth_cons, removed, hlater,
          Edit.growth, hnothing, leavingAt]
        omega
      · have hstop : ¬ edit.after.stop ≤ span.stop := by
          intro hstop
          refine hpoint ?_
          obtain ⟨⟨first, last⟩, after, inserted, inside⟩ := edit
          obtain ⟨start, stop⟩ := after
          simp only [Span.point, Span.mk.injEq] at hbehind hle hstop ⊢
          omega
        rw [hstart, endingBy, List.filter_cons_of_neg (by simpa using hstop), leavingAt,
          List.filter_cons_of_neg (by simpa using hpoint)]
        exact hlater

/-- A place to which kept text is traced back lies outside everything that was replaced. -/
theorem outside_of_retraceThrough {before after offset place : Nat} {strands : List Strand}
    (hafter : after ≤ offset)
    (hkept : ∀ edit ∈ Strand.edits before after strands,
      offset < edit.after.start ∨ edit.after.stop ≤ offset)
    (h : retraceThrough offset ((after : Int) - before) (Strand.edits before after strands) =
      some place) :
    ∀ edit ∈ Strand.edits before after strands,
      place < edit.before.start ∨ edit.before.stop ≤ place := by
  induction strands generalizing before after with
  | nil => exact fun edit hedit => (List.not_mem_nil hedit).elim
  | cons strand later ih =>
    obtain ⟨hfirst, hlater⟩ := List.forall_mem_cons.1 hkept
    rcases hfirst with hahead | hbehind
    · -- In front of the first edit all that was replaced lies ahead.
      rw [Strand.edits, retraceThrough_of_lt hahead, Option.some.injEq] at h
      have hplace : place < (strand.edit before after).before.start := by
        simp only [Strand.edit] at hahead ⊢
        omega
      intro edit hedit
      rcases List.mem_cons.1 hedit with rfl | hedit
      · exact Or.inl hplace
      · have hle := Strand.le_before_start_of_mem_edits hedit
        have hle' : (strand.edit before after).before.start ≤
            (strand.edit before after).before.stop := Nat.le_add_right ..
        exact Or.inl (Nat.lt_of_lt_of_le hplace (Nat.le_trans hle' hle))
    · rw [Strand.edits, retraceThrough_of_stop_le (Nat.le_add_right ..) hbehind] at h
      exact List.forall_mem_cons.2 ⟨Or.inr (le_of_retraceThrough hbehind h), ih hbehind hlater h⟩

namespace Reachable

variable {text : Text} {revision : Revision} {span : Span}

/-- Kept bytes are traced back to where they stood. -/
theorem retrace?_of_keepsByte (h : Reachable text revision) {after before : Nat}
    (hkeeps : revision.KeepsByte after before) : revision.retrace? after = some before := by
  obtain ⟨c, first, first', byte, hkeeps, hbyte, rfl, rfl⟩ := hkeeps
  exact h.retrace?_add_of_keeps hkeeps hbyte

/-- A byte of the current text was kept if no insertion contains it. -/
theorem exists_keepsByte_of_lt (h : Reachable text revision) {offset : Nat}
    (hlt : offset < Text.size revision.current)
    (houtside : ∀ edit ∈ revision.edits,
      offset < edit.after.start ∨ edit.after.stop ≤ offset) :
    ∃ before, revision.KeepsByte offset before := by
  obtain ⟨front, c, back, hcurrent, hle, hbyte⟩ := Text.exists_append_cons_of_lt hlt
  -- Insertions end between two characters, so none of them contains the start of this one.
  have hfirst : ∀ edit ∈ revision.edits,
      ¬ (edit.after.start ≤ Text.size front ∧ Text.size front < edit.after.stop) := by
    rintro edit hedit ⟨hstart, hstop⟩
    have hboundary := (h.within_after hedit).isBoundary_stop
    rw [hcurrent] at hboundary
    have hcases := hboundary.le_or_le
    have hor := houtside edit hedit
    omega
  obtain ⟨before, hkeeps⟩ := (h.exists_keeps_iff hcurrent).2 hfirst
  exact ⟨before + (offset - Text.size front), c, Text.size front, before,
    offset - Text.size front, hkeeps, by omega, by omega, rfl⟩

/-- Kept bytes stood outside everything that was replaced. -/
theorem outside_of_keepsByte (h : Reachable text revision) {after before : Nat}
    (hkeeps : revision.KeepsByte after before) :
    ∀ edit ∈ revision.edits, before < edit.before.start ∨ edit.before.stop ≤ before := by
  have htrace := h.retrace?_of_keepsByte hkeeps
  obtain ⟨c, first, first', byte, hkeeps, hbyte, rfl, rfl⟩ := hkeeps
  obtain ⟨⟨front, back, hcurrent, rfl⟩, -⟩ := h.eq_append_of_keeps hkeeps
  have hkept := (h.exists_keeps_iff hcurrent).1 ⟨first', hkeeps⟩
  have hle : Text.size front + byte ≤ Text.size revision.current := by
    rw [hcurrent, Text.size_append, Text.size_cons]
    omega
  -- No insertion begins inside the character, so one without its first byte has none of them.
  have houtside : ∀ edit ∈ revision.edits,
      Text.size front + byte < edit.after.start ∨ edit.after.stop ≤ Text.size front + byte := by
    intro edit hedit
    have hboundary := (h.within_after hedit).isBoundary_start
    rw [hcurrent] at hboundary
    have hcases := hboundary.le_or_le
    have hnot := hkept edit hedit
    omega
  obtain ⟨weave, rfl, -⟩ := h.exists_weave
  rw [retrace?, Nat.min_eq_left hle] at htrace
  exact @outside_of_retraceThrough 0 0 _ _ weave.strands (Nat.zero_le _) houtside htrace

/-- The bytes of a span between insertions stood in one piece before all edits, and the start of the
span is traced back to where this piece began. -/
theorem exists_keepsByte (h : Reachable text revision) (hlt : span.start < span.stop)
    (hle : span.stop ≤ Text.size revision.current) (hclears : revision.Clears span) :
    ∃ start : Nat, (start : Int) = span.start - growth (endingBy revision.edits span.start) ∧
      revision.retrace? span.start = some start ∧
      ∀ byte < span.length, revision.KeepsByte (span.start + byte) (start + byte) := by
  have houtside {offset : Nat} (hstart : span.start ≤ offset) (hstop : offset ≤ span.stop) :
      ∀ edit ∈ revision.edits, ¬ (edit.after.start < offset ∧ offset < edit.after.stop) := by
    intro edit hedit
    have hor := hclears edit hedit
    omega
  obtain ⟨start, htrace, hgrowth, -⟩ := h.exists_retrace?_eq
    (Nat.le_trans (Nat.le_of_lt hlt) hle) (houtside (Nat.le_refl _) (Nat.le_of_lt hlt))
  refine ⟨start, hgrowth, htrace, fun byte hbyte => ?_⟩
  have hbyte' : span.start + byte < span.stop := by
    rw [Span.length] at hbyte
    omega
  obtain ⟨before, hkeeps⟩ := h.exists_keepsByte_of_lt (Nat.lt_of_lt_of_le hbyte' hle)
    fun edit hedit => by
      have hor := hclears edit hedit
      omega
  -- The same edits end by all bytes of the span, so all of them have moved by the same distance.
  obtain ⟨place, hplace, hgrowth', -⟩ := h.exists_retrace?_eq
    (Nat.le_trans (Nat.le_of_lt hbyte') hle) (houtside (Nat.le_add_right ..) (Nat.le_of_lt hbyte'))
  have hending : endingBy revision.edits (span.start + byte) =
      endingBy revision.edits span.start := by
    refine List.filter_congr fun edit hedit => ?_
    have hproper := h.start_le_stop edit hedit
    have hor := hclears edit hedit
    rw [decide_eq_decide]
    omega
  obtain rfl : place = before :=
    Option.some.inj (hplace.symm.trans (h.retrace?_of_keepsByte hkeeps))
  obtain rfl : place = start + byte := by
    rw [hending] at hgrowth'
    omega
  exact hkeeps

/-- The end of a span between insertions is traced back behind what was removed there. -/
theorem retraceStop?_eq (h : Reachable text revision) (hlt : span.start < span.stop)
    (hle : span.stop ≤ Text.size revision.current) (hclears : revision.Clears span) {start : Nat}
    (hstart : (start : Int) = span.start - growth (endingBy revision.edits span.start)) :
    revision.retraceStop? span.stop =
      some (start + span.length + removed (leavingAt revision.edits span.stop)) := by
  have houtside : ∀ edit ∈ revision.edits,
      ¬ (edit.after.start < span.stop ∧ span.stop < edit.after.stop) := by
    intro edit hedit
    have hor := hclears edit hedit
    omega
  have henclosing : revision.enclosing? span.stop = none :=
    List.find?_eq_none.2 fun edit hedit => by simpa using houtside edit hedit
  obtain ⟨place, hplace, hgrowth, -⟩ := h.exists_retrace?_eq hle houtside
  rw [growth_endingBy_stop hlt h.start_le_stop (fun edit hedit => h.length_after hedit) hclears]
    at hgrowth
  rw [retraceStop?, henclosing]
  dsimp only
  rw [hplace, Option.some.injEq, Span.length]
  omega

end Reachable

/-- The bytes of a span between two insertions stood in one piece before all edits, outside
everything that was replaced. The span is traced back to this piece, together with whatever edits
removed right behind it without putting anything there; so it is traced back to the piece alone
exactly if no such edit stands at its end. -/
theorem retraceSpan?_of_clears {text : Text} {revision : Revision} (h : Reachable text revision)
    {span : Span} (hlt : span.start < span.stop) (hle : span.stop ≤ Text.size revision.current)
    (hclears : revision.Clears span) :
    ∃ start : Nat,
      (∀ byte < span.length, revision.KeepsByte (span.start + byte) (start + byte) ∧
        ∀ edit ∈ revision.edits,
          start + byte < edit.before.start ∨ edit.before.stop ≤ start + byte) ∧
      revision.retraceSpan? span = some ⟨start,
        start + span.length + removed (leavingAt revision.edits span.stop)⟩ ∧
      (revision.retraceSpan? span = some ⟨start, start + span.length⟩ ↔
        ∀ edit ∈ revision.edits, edit.after = .point span.stop → edit.before.length = 0) := by
  obtain ⟨start, hgrowth, htrace, hkeeps⟩ := h.exists_keepsByte hlt hle hclears
  have hspan : revision.retraceSpan? span = some ⟨start,
      start + span.length + removed (leavingAt revision.edits span.stop)⟩ := by
    rw [retraceSpan?, htrace]
    dsimp only
    rw [h.retraceStop?_eq hlt hle hclears hgrowth, Option.map_some, Nat.max_eq_left (by omega)]
  refine ⟨start, fun byte hbyte => ⟨hkeeps byte hbyte, h.outside_of_keepsByte (hkeeps byte hbyte)⟩,
    hspan, ?_⟩
  rw [hspan, Option.some.injEq, Span.mk.injEq, Nat.add_eq_left, removed_eq_zero_iff]
  simp only [mem_leavingAt, and_imp, true_and]

/-- A text whose first letter was replaced, from which a blank between two words was removed, and at
whose end a mark was put. -/
def joinedWords : Revision where
  base := "ab cé ef".toList
  current := "xyzb céef!".toList
  edits := [⟨⟨0, 1⟩, ⟨0, 3⟩, ['x', 'y', 'z'], .discarded⟩, ⟨⟨6, 7⟩, ⟨8, 8⟩, [], .discarded⟩,
    ⟨⟨9, 9⟩, ⟨10, 11⟩, ['!'], .anchored⟩]

theorem reachable_joinedWords : Reachable "ab cé ef".toList joinedWords :=
  @Reachable.replace _ _ _ ⟨9, 9⟩ ['!'] .anchored
    (@Reachable.replace _ _ _ ⟨6, 7⟩ [] .discarded
      (@Reachable.replace _ _ _ ⟨0, 1⟩ ['x', 'y', 'z'] .discarded .ofText rfl) rfl) rfl

/-- In front of the blank that was removed, the kept text is traced back together with the blank;
the text from there up to the mark is traced back alone. -/
theorem retraceSpan?_of_clears_joinedWords :
    Reachable "ab cé ef".toList joinedWords ∧
      (joinedWords.Clears ⟨3, 8⟩ ∧ ∃ start : Nat,
        joinedWords.retraceSpan? ⟨3, 8⟩ = some ⟨start, start + 5 + 1⟩) ∧
      joinedWords.Clears ⟨8, 10⟩ ∧ ∃ start : Nat,
        joinedWords.retraceSpan? ⟨8, 10⟩ = some ⟨start, start + 2⟩ := by
  have hahead : joinedWords.Clears ⟨3, 8⟩ := by unfold Clears; decide
  have hbehind : joinedWords.Clears ⟨8, 10⟩ := by unfold Clears; decide
  obtain ⟨start, -, hspan, -⟩ :=
    retraceSpan?_of_clears reachable_joinedWords (by decide) (by decide) hahead
  obtain ⟨start', -, -, hexact⟩ :=
    retraceSpan?_of_clears reachable_joinedWords (by decide) (by decide) hbehind
  exact ⟨reachable_joinedWords, ⟨hahead, start, hspan⟩, hbehind, start', hexact.2 (by decide)⟩

/-- The words in front of the blank that was removed are kept text between two edits, but the span
they are traced back to is not the one where they stood. -/
theorem retraceSpan?_joinedWords :
    Reachable "ab cé ef".toList joinedWords ∧ joinedWords.Clears ⟨3, 8⟩ ∧
      (∀ byte < 5, joinedWords.KeepsByte (3 + byte) (1 + byte)) ∧
      joinedWords.retraceSpan? ⟨3, 8⟩ ≠ some ⟨1, 1 + 5⟩ := by
  have hclears : joinedWords.Clears ⟨3, 8⟩ := by unfold Clears; decide
  obtain ⟨start, -, htrace, hkeeps⟩ :=
    reachable_joinedWords.exists_keepsByte (by decide) (by decide) hclears
  obtain rfl : 1 = start := Option.some.inj htrace
  exact ⟨reachable_joinedWords, hclears, hkeeps, by decide⟩

end Revision

end Retrace
