import Retrace.Proofs.Text.Boundary
import Retrace.Revision.Basic

/-!
# Revisions taken apart

Edits are accepted in ascending order and never overlap, so a revised text falls into strands: a
stretch that was kept and the edit behind it, again and again, and a kept tail. A `Weave` holds
these pieces; the text before all edits, the text after them and the edits with their offsets are
read off it. Every revision that is reached by accepted edits is read off some weave
(`Reachable.exists_weave`), and whatever depends on offsets is proved along its strands.

## Main definitions

* `Revision.Reachable`: the revisions of a text that are reached by accepted edits;
* `Weave`: the pieces of a revised text.
-/

namespace Retrace

/-- A stretch of kept text and the edit behind it. -/
structure Strand where
  /-- The text that was kept. -/
  kept : Text
  /-- The text that was replaced. -/
  removed : Text
  /-- The text that was put in its place. -/
  inserted : Text
  /-- How positions inside the inserted text are traced back. -/
  inside : Inside

namespace Strand

/-- The strands as they were before all edits. -/
def bases (strands : List Strand) : Text :=
  strands.flatMap fun strand => strand.kept ++ strand.removed

/-- The strands as they are after all edits. -/
def currents (strands : List Strand) : Text :=
  strands.flatMap fun strand => strand.kept ++ strand.inserted

@[simp] theorem bases_nil : bases [] = [] := rfl

@[simp] theorem currents_nil : currents [] = [] := rfl

@[simp] theorem bases_cons (strand : Strand) (later : List Strand) :
    bases (strand :: later) = strand.kept ++ (strand.removed ++ bases later) :=
  List.append_assoc ..

@[simp] theorem currents_cons (strand : Strand) (later : List Strand) :
    currents (strand :: later) = strand.kept ++ (strand.inserted ++ currents later) :=
  List.append_assoc ..

theorem bases_append (strands later : List Strand) :
    bases (strands ++ later) = bases strands ++ bases later :=
  List.flatMap_append

theorem currents_append (strands later : List Strand) :
    currents (strands ++ later) = currents strands ++ currents later :=
  List.flatMap_append

/-- The edit of a strand that begins at these offsets before and after all edits. -/
def edit (before after : Nat) (strand : Strand) : Edit where
  before := ⟨before + Text.size strand.kept,
    before + Text.size strand.kept + Text.size strand.removed⟩
  after := ⟨after + Text.size strand.kept,
    after + Text.size strand.kept + Text.size strand.inserted⟩
  inserted := strand.inserted
  inside := strand.inside

/-- The edits of strands that begin at these offsets before and after all edits. -/
def edits : (before after : Nat) → List Strand → List Edit
  | _, _, [] => []
  | before, after, strand :: later =>
    let edit := strand.edit before after
    edit :: edits edit.before.stop edit.after.stop later

theorem edits_append (before after : Nat) (strands later : List Strand) :
    edits before after (strands ++ later) =
      edits before after strands ++
        edits (before + Text.size (bases strands)) (after + Text.size (currents strands))
          later := by
  induction strands generalizing before after with
  | nil => rfl
  | cons strand others ih =>
    simp only [List.cons_append, edits, ih, edit, bases_cons, currents_cons, Text.size_append,
      Nat.add_assoc]

/-- All edits of some strands lie behind the offset where the strands begin. -/
theorem le_start_of_mem_edits {before after : Nat} {strands : List Strand} {edit : Edit}
    (h : edit ∈ edits before after strands) : after ≤ edit.after.start := by
  induction strands generalizing before after with
  | nil => cases h
  | cons strand others ih =>
    rcases List.mem_cons.1 h with rfl | h
    · exact Nat.le_add_right ..
    · refine Nat.le_trans ?_ (ih h)
      simp only [Strand.edit]
      omega

/-- No inserted text ends before it begins. -/
theorem start_le_stop_of_mem_edits {before after : Nat} {strands : List Strand} {edit : Edit}
    (h : edit ∈ edits before after strands) : edit.after.start ≤ edit.after.stop := by
  induction strands generalizing before after with
  | nil => cases h
  | cons strand others ih =>
    rcases List.mem_cons.1 h with rfl | h
    · exact Nat.le_add_right ..
    · exact ih h

/-- The inserted texts stand one behind the other. -/
theorem pairwise_edits (before after : Nat) (strands : List Strand) :
    (edits before after strands).Pairwise fun edit later =>
      edit.after.stop ≤ later.after.start := by
  induction strands generalizing before after with
  | nil => exact List.Pairwise.nil
  | cons strand others ih =>
    exact List.pairwise_cons.2 ⟨fun later hlater => le_start_of_mem_edits hlater, ih ..⟩

/-- The latest edit ends where the strands ended before all edits. -/
theorem stop_of_getLast?_edits {strands : List Strand} {edit : Edit}
    (h : (edits 0 0 strands).getLast? = some edit) :
    edit.before.stop = Text.size (bases strands) := by
  rcases List.eq_nil_or_concat strands with rfl | ⟨others, strand, rfl⟩
  · cases h
  · rw [List.concat_eq_append, edits_append, edits, edits, List.getLast?_concat] at h
    obtain rfl := Option.some.inj h
    simp only [Strand.edit, List.concat_eq_append, bases_append, bases_cons, bases_nil,
      Text.size_append, List.append_nil]
    omega

end Strand

/-- The pieces of a revised text. -/
structure Weave where
  /-- The kept stretches with the edits behind them. -/
  strands : List Strand
  /-- The text behind all edits. -/
  tail : Text

namespace Weave

/-- The revision whose pieces these are. -/
def revision (weave : Weave) : Revision where
  base := Strand.bases weave.strands ++ weave.tail
  current := Strand.currents weave.strands ++ weave.tail
  edits := Strand.edits 0 0 weave.strands

/-- Cut the tail in three and replace the second part. -/
def extend (strands : List Strand) (strand : Strand) (tail : Text) : Weave :=
  ⟨strands ++ [strand], tail⟩

/-- Accepting an edit of the tail adds a strand. -/
theorem accept_revision (strands : List Strand) (strand : Strand) (tail : Text) :
    (Weave.mk strands (strand.kept ++ (strand.removed ++ tail))).revision.accept
        ⟨Text.size (Strand.bases strands) + Text.size strand.kept,
          Text.size (Strand.bases strands) + Text.size strand.kept + Text.size strand.removed⟩
        strand.inserted strand.inside =
      (extend strands strand tail).revision := by
  -- In the current text the edit begins behind what the strands and the kept stretch take there.
  have hstart :
      Text.size (Strand.currents strands ++ (strand.kept ++ (strand.removed ++ tail))) +
          (Text.size (Strand.bases strands) + Text.size strand.kept) -
        Text.size (Strand.bases strands ++ (strand.kept ++ (strand.removed ++ tail))) =
      Text.size (Strand.currents strands ++ strand.kept) := by
    simp only [Text.size_append]
    omega
  have hfront : ∀ back : Text,
      Text.upTo (Text.size (Strand.currents strands ++ strand.kept))
        (Strand.currents strands ++ (strand.kept ++ back)) =
      Strand.currents strands ++ strand.kept := by
    intro back
    rw [← List.append_assoc, Text.upTo_append]
  have hback :
      Text.since (Text.size (Strand.currents strands ++ strand.kept) + Text.size strand.removed)
        (Strand.currents strands ++ (strand.kept ++ (strand.removed ++ tail))) = tail := by
    rw [← Text.size_append, ← List.append_assoc, ← List.append_assoc, Text.since_append]
  simp only [Revision.accept, revision, Span.length, Nat.add_sub_cancel_left]
  rw [hstart, hfront, hback]
  simp only [extend, Strand.bases_append, Strand.currents_append, Strand.bases_cons,
    Strand.currents_cons, Strand.bases_nil, Strand.currents_nil, Strand.edits_append, Strand.edits,
    Strand.edit, List.append_assoc, List.append_nil, Text.size_append, Nat.zero_add]

end Weave

namespace Revision

/-- The revisions of a text that are reached by accepted edits. -/
inductive Reachable (text : Text) : Revision → Prop
  | ofText : Reachable text (.ofText text)
  | replace {revision revised : Revision} {range : Span} {inserted : Text} {inside : Inside} :
      Reachable text revision → revision.replace range inserted inside = .ok revised →
      Reachable text revised

/-- What is known of a range at which the next edit is not refused. -/
theorem refusal?_eq_none {revision : Revision} {range : Span}
    (h : revision.refusal? range = none) :
    range.start ≤ range.stop ∧ revision.base.IsBoundary range.start ∧
      revision.base.IsBoundary range.stop ∧
      ∀ previous, revision.edits.getLast? = some previous → previous.before.stop ≤ range.start := by
  unfold refusal? at h
  split at h
  · cases h
  · split at h
    · cases h
    · rename_i hrange hboundary
      obtain ⟨hstart, hstop⟩ := not_or.1 hboundary
      -- What is left of the refusals is that the last edit reaches into the range.
      refine ⟨by omega, Decidable.not_not.1 hstart, Decidable.not_not.1 hstop, ?_⟩
      intro previous hprevious
      rw [hprevious] at h
      simp only [ite_eq_right_iff, reduceCtorEq, imp_false] at h
      omega

/-- A range at which the next edit is not refused cuts the tail in three: what is kept, what is
replaced and what is left. -/
theorem exists_cut {strands : List Strand} {tail : Text} {range : Span}
    (h : (Weave.mk strands tail).revision.refusal? range = none) :
    ∃ kept removed rest, tail = kept ++ (removed ++ rest) ∧
      range = ⟨Text.size (Strand.bases strands) + Text.size kept,
        Text.size (Strand.bases strands) + Text.size kept + Text.size removed⟩ := by
  obtain ⟨hle, hstart, hstop, hlast⟩ := refusal?_eq_none h
  -- The edit begins behind the strands, so both of its ends are boundaries of the tail.
  have hbehind : Text.size (Strand.bases strands) ≤ range.start := by
    cases hedits : (Strand.edits 0 0 strands).getLast? with
    | none =>
      cases strands with
      | nil => exact Nat.zero_le _
      | cons strand others => cases List.getLast?_eq_none_iff.1 hedits
    | some previous =>
      rw [← Strand.stop_of_getLast?_edits hedits]
      exact hlast previous hedits
  obtain ⟨start, stop⟩ := range
  obtain ⟨kept, behind, rfl, rfl⟩ := hstart.exists_append hbehind
  have hstop' : (Strand.bases strands ++ kept ++ behind).IsBoundary stop := by
    rw [List.append_assoc]
    exact hstop
  obtain ⟨removed, rest, rfl, rfl⟩ := hstop'.exists_append hle
  exact ⟨kept, removed, rest, rfl, by simp only [Text.size_append]⟩

/-- An accepted edit of a revision read off a weave gives a revision read off a weave, with the same
text before all edits. -/
theorem exists_weave_of_replace {weave : Weave} {revised : Revision} {range : Span}
    {inserted : Text} {inside : Inside}
    (h : weave.revision.replace range inserted inside = .ok revised) :
    ∃ weave' : Weave, weave'.revision = revised ∧
      weave'.revision.base = weave.revision.base := by
  unfold replace at h
  split at h
  · cases h
  · rename_i hrefusal
    obtain rfl := Except.ok.inj h
    obtain ⟨strands, tail⟩ := weave
    obtain ⟨kept, removed, rest, rfl, rfl⟩ := exists_cut hrefusal
    refine ⟨.extend strands ⟨kept, removed, inserted, inside⟩ rest, ?_, ?_⟩
    · exact (Weave.accept_revision strands ⟨kept, removed, inserted, inside⟩ rest).symm
    · rw [← Weave.accept_revision]
      rfl

/-- Every reachable revision is read off a weave. -/
theorem Reachable.exists_weave {text : Text} {revision : Revision} (h : Reachable text revision) :
    ∃ weave : Weave, weave.revision = revision ∧ weave.revision.base = text := by
  induction h with
  | ofText => exact ⟨⟨[], text⟩, rfl, rfl⟩
  | replace _ hreplace ih =>
    obtain ⟨weave, rfl, hbase⟩ := ih
    obtain ⟨weave', hrevised, hbase'⟩ := exists_weave_of_replace hreplace
    exact ⟨weave', hrevised, hbase'.trans hbase⟩

/-- The text before all edits stays the same. -/
theorem Reachable.base_eq {text : Text} {revision : Revision} (h : Reachable text revision) :
    revision.base = text := by
  obtain ⟨weave, rfl, hbase⟩ := h.exists_weave
  exact hbase

end Revision

end Retrace
