import Retrace.Proofs.Revision.Growth

/-!
# Spans of a woven text

Where the pieces of a revised text are known, spans are traced back piece by piece. A span of kept
text comes back as the span of the same bytes (`retraceSpan?_lead`), and a span inside anchored text
as the whole piece that this text has replaced (`retraceSpan?_anchored`). Both need that no edit has
removed a piece without putting something in its place: the end of a span would move behind it.

## Main definitions

* `Weave.lead`: the kept text in front of some strands.
-/

namespace Retrace.Weave

open Revision

/-- The kept text in front of the first of some strands, or behind all of them. -/
def lead (strands : List Strand) (tail : Text) : Text :=
  match strands with
  | [] => tail
  | strand :: _ => strand.kept

variable {front back : List Strand} {strand : Strand} {tail : Text} {offset start stop : Nat}

theorem lead_le (strands : List Strand) (tail : Text) :
    Text.size (lead strands tail) ≤ Text.size (Strand.currents strands ++ tail) := by
  cases strands with
  | nil => exact Nat.le_refl _
  | cons strand later => simp [lead]

/-- Every edit is that of a strand. -/
theorem exists_strand_of_mem_edits {before after : Nat} {strands : List Strand} {edit : Edit}
    (h : edit ∈ Strand.edits before after strands) :
    ∃ strand ∈ strands, edit.inserted = strand.inserted ∧ edit.inside = strand.inside := by
  induction strands generalizing before after with
  | nil => cases h
  | cons strand later ih =>
    rcases List.mem_cons.1 h with rfl | h
    · exact ⟨strand, List.mem_cons_self, rfl, rfl⟩
    · obtain ⟨other, hother, hsame⟩ := ih h
      exact ⟨other, List.mem_cons_of_mem _ hother, hsame⟩

/-- Insertions end by the end of the strands. -/
theorem stop_le_of_mem_edits {before after : Nat} {strands : List Strand} {edit : Edit}
    (h : edit ∈ Strand.edits before after strands) :
    edit.after.stop ≤ after + Text.size (Strand.currents strands) := by
  obtain ⟨ahead, behind, hcurrents, hafter⟩ := exists_append_of_mem_edits h []
  rw [List.append_nil] at hcurrents
  rw [hafter, hcurrents]
  simp only [Text.size_append]
  omega

/-- If every strand has put something in place of what it removed, all insertions end behind the
kept text in front. -/
theorem lt_stop_of_mem_edits {before after : Nat} {strands : List Strand} {edit : Edit}
    (hfilled : ∀ strand ∈ strands, strand.inserted ≠ [])
    (h : edit ∈ Strand.edits before after strands) (tail : Text)
    (hoffset : offset ≤ Text.size (lead strands tail)) :
    after + offset ≤ edit.after.start ∧ after + offset < edit.after.stop := by
  cases strands with
  | nil => cases h
  | cons strand later =>
    have hpos : 0 < Text.size strand.inserted := Nat.pos_of_ne_zero fun hzero =>
      hfilled strand List.mem_cons_self (Text.size_eq_zero_iff.1 hzero)
    have hlead : lead (strand :: later) tail = strand.kept := rfl
    rw [hlead] at hoffset
    rcases List.mem_cons.1 h with rfl | h
    · simp only [Strand.edit]
      omega
    · have hle := Strand.le_start_of_mem_edits h
      have hle' := Strand.start_le_stop_of_mem_edits h
      simp only [Strand.edit] at hle
      omega

section Lead

variable (hfilled : ∀ strand ∈ back, strand.inserted ≠ [])
  (hoffset : offset ≤ Text.size (lead back tail))

include hfilled hoffset

/-- No insertion contains an offset of kept text. -/
theorem outside_lead : ∀ edit ∈ Strand.edits 0 0 (front ++ back),
    ¬ (edit.after.start < Text.size (Strand.currents front) + offset ∧
      Text.size (Strand.currents front) + offset < edit.after.stop) := by
  intro edit hedit
  rw [Strand.edits_append] at hedit
  rcases List.mem_append.1 hedit with hedit | hedit
  · have hle := stop_le_of_mem_edits hedit
    omega
  · -- An insertion behind may begin at the offset, but does not contain it.
    have hlt := lt_stop_of_mem_edits hfilled hedit tail hoffset
    omega

/-- Ahead of kept text end exactly the insertions in front of it. -/
theorem endingBy_lead :
    endingBy (Strand.edits 0 0 (front ++ back)) (Text.size (Strand.currents front) + offset) =
      Strand.edits 0 0 front := by
  have hfront : endingBy (Strand.edits 0 0 front)
      (Text.size (Strand.currents front) + offset) = Strand.edits 0 0 front := by
    refine List.filter_eq_self.2 fun edit hedit => ?_
    have hle := stop_le_of_mem_edits hedit
    rw [decide_eq_true_eq]
    omega
  have hback : endingBy (Strand.edits (0 + Text.size (Strand.bases front))
      (0 + Text.size (Strand.currents front)) back)
        (Text.size (Strand.currents front) + offset) = [] := by
    refine endingBy_eq_nil fun edit hedit => ?_
    have hlt := lt_stop_of_mem_edits hfilled hedit tail hoffset
    omega
  -- An edit that inserts nothing at the end of the kept text would count as one in front of it.
  rw [Strand.edits_append, endingBy, List.filter_append]
  rw [endingBy] at hfront hback
  rw [hfront, hback, List.append_nil]

/-- An offset of kept text is traced back to the same place of this text. -/
theorem retrace?_lead : (Weave.mk (front ++ back) tail).revision.retrace?
    (Text.size (Strand.currents front) + offset) =
      some (Text.size (Strand.bases front) + offset) := by
  have hle : Text.size (Strand.currents front) + offset ≤
      0 + Text.size (Strand.currents (front ++ back) ++ tail) := by
    have hlead := lead_le back tail
    rw [Strand.currents_append, List.append_assoc, Text.size_append]
    omega
  obtain ⟨place, hplace, hgrowth, -⟩ := exists_retraceThrough_eq (Nat.zero_le _)
    (outside_lead hfilled hoffset) tail hle
  rw [endingBy_lead hfilled hoffset, growth_edits] at hgrowth
  rw [retrace?, Nat.min_eq_left (by simpa [revision] using hle)]
  refine hplace.trans (congrArg some ?_)
  omega

/-- No insertion encloses it. -/
theorem enclosing?_lead : (Weave.mk (front ++ back) tail).revision.enclosing?
    (Text.size (Strand.currents front) + offset) = none :=
  List.find?_eq_none.2 fun edit hedit => by
    simpa using outside_lead hfilled hoffset edit hedit

end Lead

/-- A span of kept text is traced back to the same bytes of it. -/
theorem retraceSpan?_lead (hfilled : ∀ strand ∈ back, strand.inserted ≠ []) (hle : start ≤ stop)
    (hstop : stop ≤ Text.size (lead back tail)) :
    (Weave.mk (front ++ back) tail).revision.retraceSpan?
        ⟨Text.size (Strand.currents front) + start, Text.size (Strand.currents front) + stop⟩ =
      some ⟨Text.size (Strand.bases front) + start, Text.size (Strand.bases front) + stop⟩ := by
  rw [retraceSpan?, retrace?_lead hfilled (Nat.le_trans hle hstop), retraceStop?,
    enclosing?_lead hfilled hstop]
  dsimp only
  rw [retrace?_lead hfilled hstop, Option.map_some, Nat.max_eq_left (by omega)]

/-! ## Spans of inserted text -/

/-- The edit of a strand between others. -/
theorem edits_append_cons (front back : List Strand) (strand : Strand) :
    ∃ later, Strand.edits 0 0 (front ++ strand :: back) = Strand.edits 0 0 front ++
      strand.edit (Text.size (Strand.bases front)) (Text.size (Strand.currents front)) :: later :=
  ⟨_, by rw [Strand.edits_append, Nat.zero_add, Nat.zero_add, Strand.edits]⟩

/-- Strictly inside an insertion of another length than what it replaced, offsets are traced back to
the start of what was replaced, or to nothing. -/
theorem retrace?_inside (front back : List Strand) (tail : Text)
    (hlength : Text.size strand.inserted ≠ Text.size strand.removed)
    (hpos : 0 < offset) (hoffset : offset < Text.size strand.inserted) :
    (Weave.mk (front ++ strand :: back) tail).revision.retrace?
        (Text.size (Strand.currents front ++ strand.kept) + offset) =
      match strand.inside with
      | .anchored => some (Text.size (Strand.bases front ++ strand.kept))
      | .discarded => none := by
  obtain ⟨later, hedits⟩ := edits_append_cons front back strand
  have hmem : strand.edit (Text.size (Strand.bases front)) (Text.size (Strand.currents front)) ∈
      Strand.edits 0 0 (front ++ strand :: back) := by
    rw [hedits]
    simp
  have hkeeps : (strand.edit (Text.size (Strand.bases front))
      (Text.size (Strand.currents front))).keepsLength = false := by
    rw [Edit.keepsLength, decide_eq_false_iff_not]
    simp only [Strand.edit, Span.length]
    omega
  have hle : Text.size (Strand.currents front ++ strand.kept) + offset ≤
      Text.size (Weave.mk (front ++ strand :: back) tail).revision.current := by
    simp only [revision, Strand.currents_append, Strand.currents_cons, Text.size_append]
    omega
  rw [retrace?, Nat.min_eq_left hle]
  -- The offset lies strictly inside the insertion of the strand, so its edit alone decides.
  refine (retraceThrough_eq_retraceInside (fun edit hedit =>
    Strand.start_le_stop_of_mem_edits hedit) (Strand.pairwise_edits ..) hmem ?_ ?_).trans ?_
  · simp only [Strand.edit, Text.size_append]
    omega
  · simp only [Strand.edit, Text.size_append]
    omega
  · rw [retraceInside, hkeeps, if_neg Bool.false_ne_true]
    cases hinside : strand.inside with
    | anchored => simp [Strand.edit, hinside]
    | discarded => simp [Strand.edit, hinside]

/-- The end of an insertion is traced back to the end of what was replaced. -/
theorem retraceStop?_inserted (hfilled : ∀ strand ∈ back, strand.inserted ≠ []) :
    (Weave.mk (front ++ strand :: back) tail).revision.retraceStop?
        (Text.size (Strand.currents front ++ strand.kept) + Text.size strand.inserted) =
      some (Text.size (Strand.bases front ++ (strand.kept ++ strand.removed))) := by
  -- The end stands in front of the kept text behind the insertion.
  have hend : Text.size (Strand.currents front ++ strand.kept) + Text.size strand.inserted =
      Text.size (Strand.currents (front ++ [strand])) + 0 := by
    simp [Strand.currents_append, Nat.add_assoc]
  rw [List.append_cons, hend, retraceStop?, enclosing?_lead hfilled (Nat.zero_le _)]
  refine (retrace?_lead hfilled (Nat.zero_le _)).trans ?_
  simp [Strand.bases_append]

/-- The span of an insertion is traced back to all that was replaced. -/
theorem retraceSpan?_inserted (front : List Strand) (tail : Text)
    (hfilled : ∀ other ∈ strand :: back, other.inserted ≠ []) :
    (Weave.mk (front ++ strand :: back) tail).revision.retraceSpan?
        ⟨Text.size (Strand.currents front ++ strand.kept),
          Text.size (Strand.currents front ++ strand.kept) + Text.size strand.inserted⟩ =
      some ⟨Text.size (Strand.bases front ++ strand.kept),
        Text.size (Strand.bases front ++ (strand.kept ++ strand.removed))⟩ := by
  -- It begins where the kept text ahead of it ends.
  have hstart : (Weave.mk (front ++ strand :: back) tail).revision.retrace?
      (Text.size (Strand.currents front ++ strand.kept)) =
        some (Text.size (Strand.bases front ++ strand.kept)) := by
    rw [Text.size_append, Text.size_append]
    exact retrace?_lead hfilled (Nat.le_refl _)
  rw [retraceSpan?, hstart, retraceStop?_inserted (List.forall_mem_cons.1 hfilled).2]
  dsimp only
  rw [Option.map_some, Nat.max_eq_left]
  simp only [Text.size_append]
  omega

section Anchored

variable (hfilled : ∀ strand ∈ back, strand.inserted ≠ []) (hinside : strand.inside = .anchored)

include hfilled hinside

/-- Inside an anchored insertion of another length than what it replaced, the start of a span is
traced back to the start of what was replaced. -/
theorem retrace?_anchored (hlength : Text.size strand.inserted ≠ Text.size strand.removed)
    (hstart : start < Text.size strand.inserted) :
    (Weave.mk (front ++ strand :: back) tail).revision.retrace?
        (Text.size (Strand.currents front ++ strand.kept) + start) =
      some (Text.size (Strand.bases front ++ strand.kept)) := by
  have hne : strand.inserted ≠ [] := by
    rintro hnil
    rw [hnil] at hstart
    cases hstart
  rcases Nat.eq_zero_or_pos start with rfl | hpos
  · -- At its start an insertion does not enclose the offset, which is the end of the kept text.
    rw [Text.size_append, Text.size_append]
    exact retrace?_lead (List.forall_mem_cons.2 ⟨hne, hfilled⟩) (Nat.le_refl _)
  · rw [retrace?_inside front back tail hlength hpos hstart, hinside]

/-- The end of a span in there is traced back to the end of what was replaced. -/
theorem retraceStop?_anchored (hstart : 0 < stop) (hstop : stop ≤ Text.size strand.inserted) :
    (Weave.mk (front ++ strand :: back) tail).revision.retraceStop?
        (Text.size (Strand.currents front ++ strand.kept) + stop) =
      some (Text.size (Strand.bases front ++ (strand.kept ++ strand.removed))) := by
  rcases Nat.lt_or_eq_of_le hstop with hlt | rfl
  · -- The insertions ahead end by its start, so it is the first that encloses the end of the span.
    have henclosing : (Weave.mk (front ++ strand :: back) tail).revision.enclosing?
        (Text.size (Strand.currents front ++ strand.kept) + stop) =
          some (strand.edit (Text.size (Strand.bases front))
            (Text.size (Strand.currents front))) := by
      obtain ⟨later, hedits⟩ := edits_append_cons front back strand
      have hnone : ∀ edit ∈ Strand.edits 0 0 front, ¬ (edit.after.start <
          Text.size (Strand.currents front ++ strand.kept) + stop ∧
          Text.size (Strand.currents front ++ strand.kept) + stop < edit.after.stop) := by
        intro edit hedit
        have hle := stop_le_of_mem_edits hedit
        rw [Text.size_append]
        omega
      rw [enclosing?, revision]
      dsimp only
      rw [hedits, List.find?_append, List.find?_eq_none.2 (by simpa using hnone), Option.none_or,
        List.find?_cons_of_pos]
      simp only [Strand.edit, Text.size_append, decide_eq_true_eq]
      omega
    rw [retraceStop?, henclosing]
    simp [Strand.edit, hinside, Nat.add_assoc]
  · exact retraceStop?_inserted hfilled

/-- A span in there is traced back to all that was replaced. -/
theorem retraceSpan?_anchored (hlength : Text.size strand.inserted ≠ Text.size strand.removed)
    (hlt : start < stop) (hstop : stop ≤ Text.size strand.inserted) :
    (Weave.mk (front ++ strand :: back) tail).revision.retraceSpan?
        ⟨Text.size (Strand.currents front ++ strand.kept) + start,
          Text.size (Strand.currents front ++ strand.kept) + stop⟩ =
      some ⟨Text.size (Strand.bases front ++ strand.kept),
        Text.size (Strand.bases front ++ (strand.kept ++ strand.removed))⟩ := by
  rw [retraceSpan?, retrace?_anchored hfilled hinside hlength (by omega),
    retraceStop?_anchored hfilled hinside (by omega) hstop]
  dsimp only
  rw [Option.map_some, Nat.max_eq_left]
  simp only [Text.size_append]
  omega

end Anchored

end Retrace.Weave
