import Retrace.Proofs.Revision.Strand
import Retrace.Proofs.Text.Position
import Retrace.Revision.Retrace

/-!
# Where the characters of a revised text come from

To say which characters of a revised text were kept, the edits are made once more on characters that
remember where they stood (`Revision.tracked`). Tracing an offset back is then right if it finds the
place that a kept character remembers (`Reachable.retrace?_of_keeps`), and an offset is lost exactly
if it lies strictly inside generated text of another length than what it replaced
(`Reachable.retrace?_eq_none_iff`).

## Main definitions

* `Revision.Keeps`: a character was kept, and stands at one offset now and stood at another before;
* `Revision.Discards`: an offset stands for nothing in the text before all edits.
-/

namespace Retrace

/-- A character of a revised text that remembers where it comes from. -/
structure Tracked where
  /-- The character. -/
  char : Char
  /-- The offset at which it stood before all edits, unless an edit inserted it. -/
  origin : Option Nat

namespace Tracked

/-- The characters of a text that begins at an offset, each where it stands. -/
def ofKept : (offset : Nat) → Text → List Tracked
  | _, [] => []
  | offset, c :: rest => ⟨c, some offset⟩ :: ofKept (offset + c.utf8Size) rest

/-- The characters of a text that an edit inserted. -/
def ofInserted (text : Text) : List Tracked :=
  text.map fun c => ⟨c, none⟩

/-- The characters alone. -/
def text (tracked : List Tracked) : Text :=
  tracked.map char

@[simp] theorem text_nil : text [] = [] := rfl

@[simp] theorem text_cons (first : Tracked) (later : List Tracked) :
    text (first :: later) = first.char :: text later := rfl

@[simp] theorem text_append (front back : List Tracked) :
    text (front ++ back) = text front ++ text back :=
  List.map_append

@[simp] theorem text_ofKept (offset : Nat) (kept : Text) : text (ofKept offset kept) = kept := by
  induction kept generalizing offset with
  | nil => rfl
  | cons c rest ih => rw [ofKept, text_cons, ih]

@[simp] theorem text_ofInserted (inserted : Text) : text (ofInserted inserted) = inserted := by
  simp [text, ofInserted, Function.comp_def]

/-- A character of a tracked text begins ahead of its end. -/
theorem size_text_lt {tracked front back : List Tracked} {first : Tracked}
    (h : tracked = front ++ first :: back) : Text.size (text front) < Text.size (text tracked) := by
  have hpos := Char.utf8Size_pos first.char
  rw [h, text_append, text_cons, Text.size_append, Text.size_cons]
  omega

/-- A kept character stands as far behind the start of its stretch as it remembers. -/
theorem ofKept_eq_append_cons {offset before : Nat} {kept : Text} {c : Char}
    {front back : List Tracked} (h : ofKept offset kept = front ++ ⟨c, some before⟩ :: back) :
    before = offset + Text.size (text front) ∧ ∃ behind, kept = text front ++ c :: behind := by
  induction kept generalizing offset front with
  | nil => cases front <;> cases h
  | cons d rest ih =>
    cases front with
    | nil =>
      rw [ofKept, List.nil_append, List.cons.injEq, Tracked.mk.injEq, Option.some.injEq] at h
      obtain ⟨⟨rfl, rfl⟩, -⟩ := h
      exact ⟨rfl, rest, rfl⟩
    | cons first front =>
      rw [ofKept, List.cons_append, List.cons.injEq] at h
      obtain ⟨rfl, h⟩ := h
      obtain ⟨hbefore, behind, hrest⟩ := ih h
      refine ⟨?_, behind, ?_⟩
      · rw [hbefore, text_cons, Text.size_cons, Nat.add_assoc]
      · rw [hrest, text_cons, List.cons_append]

/-- A kept character remembers where it stood. -/
theorem exists_origin_of_mem_ofKept {offset : Nat} {kept : Text} {tracked : Tracked}
    (h : tracked ∈ ofKept offset kept) : ∃ before, tracked.origin = some before := by
  induction kept generalizing offset with
  | nil => cases h
  | cons c rest ih =>
    rcases List.mem_cons.1 h with rfl | h
    · exact ⟨offset, rfl⟩
    · exact ih h

/-- An inserted character remembers nothing. -/
theorem origin_of_mem_ofInserted {inserted : Text} {tracked : Tracked}
    (h : tracked ∈ ofInserted inserted) : tracked.origin = none := by
  obtain ⟨c, -, rfl⟩ := List.mem_map.1 h
  rfl

end Tracked

namespace Revision

/-- Worker of `tracked`: make the edits that are left in the text that is left, which began at the
offset `passed` before all edits. -/
def trackFrom (passed : Nat) : List Edit → Text → List Tracked
  | [], text => Tracked.ofKept passed text
  | edit :: later, text =>
    Tracked.ofKept passed (text.upTo (edit.before.start - passed)) ++
      (Tracked.ofInserted edit.inserted ++
        trackFrom edit.before.stop later (text.since (edit.before.stop - passed)))

/-- The revised text with the origins of its characters, made by replacing every edited range of
the text before all edits. -/
def tracked (revision : Revision) : List Tracked :=
  trackFrom 0 revision.edits revision.base

/-- No edit touched a character: it stood at the offset `before` and stands at `after` now. -/
def Keeps (revision : Revision) (c : Char) (after before : Nat) : Prop :=
  ∃ front back, revision.tracked = front ++ ⟨c, some before⟩ :: back ∧
    Text.size (Tracked.text front) = after

/-- An offset lies strictly inside generated text that has another length than what it replaced. -/
def Discards (revision : Revision) (offset : Nat) : Prop :=
  ∃ edit ∈ revision.edits, edit.after.start < offset ∧ offset < edit.after.stop ∧
    edit.inside = .discarded ∧ edit.before.length ≠ edit.after.length

/-! ## Tracked texts along strands -/

/-- The first strand gives its kept text, its inserted text and what the later strands give. -/
theorem trackFrom_edits_cons (before after : Nat) (strand : Strand) (later : List Strand)
    (tail : Text) :
    trackFrom before (Strand.edits before after (strand :: later))
        (Strand.bases (strand :: later) ++ tail) =
      Tracked.ofKept before strand.kept ++ (Tracked.ofInserted strand.inserted ++
        trackFrom (strand.edit before after).before.stop
          (Strand.edits (strand.edit before after).before.stop
            (strand.edit before after).after.stop later)
          (Strand.bases later ++ tail)) := by
  have hstop : (strand.edit before after).before.stop - before =
      Text.size (strand.kept ++ strand.removed) := by
    simp only [Strand.edit, Text.size_append]
    omega
  have hstart : (strand.edit before after).before.start - before = Text.size strand.kept :=
    Nat.add_sub_cancel_left ..
  rw [Strand.edits, trackFrom, hstart, hstop, Strand.bases_cons, List.append_assoc,
    List.append_assoc, Text.upTo_append, ← List.append_assoc strand.kept, Text.since_append]
  rfl

/-- Without their origins the tracked characters are the current text. -/
theorem text_trackFrom_edits (before after : Nat) (strands : List Strand) (tail : Text) :
    Tracked.text (trackFrom before (Strand.edits before after strands)
      (Strand.bases strands ++ tail)) = Strand.currents strands ++ tail := by
  induction strands generalizing before after with
  | nil => exact Tracked.text_ofKept ..
  | cons strand later ih =>
    rw [trackFrom_edits_cons, Tracked.text_append, Tracked.text_append, Tracked.text_ofKept,
      Tracked.text_ofInserted, ih, Strand.currents_cons, List.append_assoc, List.append_assoc]

/-- An element of a list that is put together stands in its first part or in its second. -/
private theorem append_eq_append_cons {α : Type} {first second front back : List α} {x : α}
    (h : first ++ second = front ++ x :: back) :
    (∃ rest, first = front ++ x :: rest) ∨
      ∃ rest, front = first ++ rest ∧ second = rest ++ x :: back := by
  rcases List.append_eq_append_iff.1 h with ⟨rest, hfront, hsecond⟩ | ⟨rest, hfirst, hback⟩
  · exact Or.inr ⟨rest, hfront, hsecond⟩
  · cases rest with
    | nil => exact Or.inr ⟨[], by simpa using hfirst.symm, hback.symm⟩
    | cons y rest =>
      rw [List.cons_append, List.cons.injEq] at hback
      exact Or.inl ⟨rest, by rw [hfirst, hback.1]⟩

/-- Behind the kept and the inserted text of a strand, offsets count on from the end of the
insertion. -/
theorem add_size_behind (before after : Nat) (strand : Strand) (front : List Tracked) :
    after + Text.size (Tracked.text (Tracked.ofKept before strand.kept ++
        (Tracked.ofInserted strand.inserted ++ front))) =
      (strand.edit before after).after.stop + Text.size (Tracked.text front) := by
  simp only [Tracked.text_append, Tracked.text_ofKept, Tracked.text_ofInserted, Text.size_append,
    Strand.edit]
  omega

/-- A kept character is traced back to the place it remembers, and stood there. -/
theorem retraceThrough_edits (before after : Nat) {place : Nat} {strands : List Strand}
    {tail : Text} {c : Char} {front back : List Tracked}
    (h : trackFrom before (Strand.edits before after strands) (Strand.bases strands ++ tail) =
      front ++ ⟨c, some place⟩ :: back) :
    retraceThrough (after + Text.size (Tracked.text front)) ((after : Int) - before)
        (Strand.edits before after strands) = some place ∧
      ∃ ahead behind, Strand.bases strands ++ tail = ahead ++ c :: behind ∧
        place = before + Text.size ahead := by
  induction strands generalizing before after front with
  | nil =>
    obtain ⟨rfl, behind, htail⟩ := Tracked.ofKept_eq_append_cons h
    refine ⟨?_, Tracked.text front, behind, htail, rfl⟩
    rw [Strand.edits, retraceThrough, Option.some.injEq]
    omega
  | cons strand later ih =>
    rw [trackFrom_edits_cons] at h
    -- The character stands in the kept text of the strand, in its inserted text or behind both.
    rcases append_eq_append_cons h with ⟨rest, hkept⟩ | ⟨front, rfl, hbehind⟩
    · -- Before the edit, places move by what the earlier edits have added.
      obtain ⟨rfl, behind, hkept⟩ := Tracked.ofKept_eq_append_cons hkept
      refine ⟨?_, Tracked.text front, behind ++ (strand.removed ++ Strand.bases later ++ tail),
        ?_, rfl⟩
      · have hstart : after + Text.size (Tracked.text front) <
            (strand.edit before after).after.start := by
          have hc := Char.utf8Size_pos c
          simp only [Strand.edit, hkept, Text.size_append, Text.size_cons]
          omega
        rw [Strand.edits, retraceThrough_of_lt hstart, Option.some.injEq]
        omega
      · simp only [Strand.bases_cons, hkept, List.append_assoc, List.cons_append]
    · rcases append_eq_append_cons hbehind with ⟨rest, hinserted⟩ | ⟨front, rfl, hlater⟩
      · -- Inserted characters remember no place.
        have hmem : ⟨c, some place⟩ ∈ Tracked.ofInserted strand.inserted := by
          rw [hinserted]
          simp
        cases Tracked.origin_of_mem_ofInserted hmem
      · obtain ⟨htrace, ahead, behind, hbase, hplace⟩ := ih _ _ hlater
        refine ⟨?_, strand.kept ++ (strand.removed ++ ahead), behind, ?_, ?_⟩
        · rw [add_size_behind, Strand.edits,
            retraceThrough_of_stop_le (Nat.le_add_right ..) (Nat.le_add_right ..)]
          exact htrace
        · rw [Strand.bases_cons, List.append_assoc, List.append_assoc, hbase, List.append_assoc,
            List.append_assoc]
        · rw [hplace]
          simp only [Strand.edit, Text.size_append]
          omega

/-- A character remembers nothing exactly if it stands in the inserted text of an edit. -/
theorem origin_eq_none_iff (before after : Nat) {strands : List Strand} {tail : Text}
    {tracked : Tracked} {front back : List Tracked}
    (h : trackFrom before (Strand.edits before after strands) (Strand.bases strands ++ tail) =
      front ++ tracked :: back) :
    tracked.origin = none ↔ ∃ edit ∈ Strand.edits before after strands,
      edit.after.start ≤ after + Text.size (Tracked.text front) ∧
        after + Text.size (Tracked.text front) < edit.after.stop := by
  induction strands generalizing before after front with
  | nil =>
    have hmem : tracked ∈ Tracked.ofKept before tail := by
      rw [Strand.edits, trackFrom, Strand.bases_nil, List.nil_append] at h
      rw [h]
      simp
    obtain ⟨place, horigin⟩ := Tracked.exists_origin_of_mem_ofKept hmem
    simp [horigin, Strand.edits]
  | cons strand later ih =>
    rw [trackFrom_edits_cons] at h
    simp only [Strand.edits, List.mem_cons, exists_eq_or_imp]
    have hbehind {edit : Edit} (hedit : edit ∈ Strand.edits (strand.edit before after).before.stop
        (strand.edit before after).after.stop later) :
        after + Text.size strand.kept + Text.size strand.inserted ≤ edit.after.start :=
      Strand.le_start_of_mem_edits hedit
    rcases append_eq_append_cons h with ⟨rest, hkept⟩ | ⟨front, rfl, hrest⟩
    · -- In kept text no edit reaches the character.
      have hmem : tracked ∈ Tracked.ofKept before strand.kept := by
        rw [hkept]
        simp
      obtain ⟨place, horigin⟩ := Tracked.exists_origin_of_mem_ofKept hmem
      have hsize : Text.size (Tracked.text front) < Text.size strand.kept :=
        Tracked.text_ofKept before strand.kept ▸ Tracked.size_text_lt hkept
      rw [horigin]
      refine iff_of_false (Option.some_ne_none place) ?_
      rintro (⟨hstart, -⟩ | ⟨edit, hedit, hstart, -⟩)
      · simp only [Strand.edit] at hstart
        omega
      · have := hbehind hedit
        omega
    · have hfront : Text.size (Tracked.text (Tracked.ofKept before strand.kept ++ front)) =
          Text.size strand.kept + Text.size (Tracked.text front) := by
        rw [Tracked.text_append, Tracked.text_ofKept, Text.size_append]
      rcases append_eq_append_cons hrest with ⟨rest, hinserted⟩ | ⟨front, rfl, hlater⟩
      · -- The inserted text of the strand contains the character.
        have hmem : tracked ∈ Tracked.ofInserted strand.inserted := by
          rw [hinserted]
          simp
        have hsize : Text.size (Tracked.text front) < Text.size strand.inserted :=
          Tracked.text_ofInserted strand.inserted ▸ Tracked.size_text_lt hinserted
        refine iff_of_true (Tracked.origin_of_mem_ofInserted hmem) (Or.inl ?_)
        rw [hfront]
        simp only [Strand.edit]
        omega
      · -- Behind the strand only the later edits matter.
        rw [add_size_behind, ih _ _ hlater, or_iff_right]
        rintro ⟨-, hstop⟩
        omega

/-! ## Lost offsets -/

/-- An offset inside an inserted text is lost if the text is generated and has another length than
what it replaced. -/
theorem retraceInside_eq_none_iff {edit : Edit} {offset : Nat} :
    retraceInside edit offset = none ↔
      edit.inside = .discarded ∧ edit.before.length ≠ edit.after.length := by
  by_cases hlength : edit.before.length = edit.after.length
  · simp [retraceInside, Edit.keepsLength, hlength]
  · cases hinside : edit.inside <;> simp [retraceInside, Edit.keepsLength, hlength, hinside]

/-- Going through edits whose inserted texts stand one behind the other, an offset is lost exactly
inside generated text that has another length than what it replaced. -/
theorem retraceThrough_eq_none_iff {offset : Nat} {growth : Int} {edits : List Edit}
    (hproper : ∀ edit ∈ edits, edit.after.start ≤ edit.after.stop)
    (hordered : edits.Pairwise fun edit later => edit.after.stop ≤ later.after.start) :
    retraceThrough offset growth edits = none ↔
      ∃ edit ∈ edits, edit.after.start < offset ∧ offset < edit.after.stop ∧
        edit.inside = .discarded ∧ edit.before.length ≠ edit.after.length := by
  induction edits generalizing growth with
  | nil => simp [retraceThrough]
  | cons edit later ih =>
    obtain ⟨hfirst, hlater⟩ := List.pairwise_cons.1 hordered
    have hedit := hproper edit List.mem_cons_self
    -- Before the end of this insertion no later one begins.
    have hahead : offset < edit.after.stop → ∀ other ∈ later, ¬ other.after.start < offset := by
      intro hstop other hother
      have := hfirst other hother
      omega
    have hih := @ih (edit.after.stop - edit.before.stop : Int)
      (fun other hother => hproper other (List.mem_cons_of_mem _ hother)) hlater
    simp only [List.mem_cons, exists_eq_or_imp]
    by_cases hstart : offset < edit.after.start
    · rw [retraceThrough_of_lt hstart]
      -- In front of the insertion nothing is lost.
      simp only [reduceCtorEq, false_iff, not_or, not_exists, not_and]
      refine ⟨fun h => by omega, fun other hother h => ?_⟩
      exact absurd h (hahead (by omega) other hother)
    by_cases hstop : edit.after.stop ≤ offset
    · rw [retraceThrough_of_stop_le hedit hstop, hih]
      constructor
      · exact Or.inr
      · rintro (⟨-, h, -⟩ | h)
        · omega
        · exact h
    -- Inside the insertion or where it begins, no later edit is asked.
    have hnone : ¬ ∃ other ∈ later, other.after.start < offset ∧
        offset < other.after.stop ∧ other.inside = .discarded ∧
        other.before.length ≠ other.after.length := by
      rintro ⟨other, hother, h, -⟩
      exact hahead (by omega) other hother h
    rw [or_iff_left hnone]
    rcases Nat.lt_or_eq_of_le (Nat.not_lt.1 hstart) with hinside | rfl
    · rw [retraceThrough_of_inside hinside (Nat.not_le.1 hstop), retraceInside_eq_none_iff]
      constructor
      · exact fun h => ⟨hinside, Nat.not_le.1 hstop, h⟩
      · exact fun h => h.2.2
    · rw [retraceThrough_start (Nat.not_le.1 hstop)]
      simp

/-- At most one inserted text contains an offset. -/
theorem eq_of_mem_edits {offset : Nat} {edits : List Edit}
    (hordered : edits.Pairwise fun edit later => edit.after.stop ≤ later.after.start)
    {edit other : Edit} (hedit : edit ∈ edits) (hother : other ∈ edits)
    (hin : edit.after.start < offset ∧ offset < edit.after.stop)
    (hin' : other.after.start < offset ∧ offset < other.after.stop) : edit = other := by
  induction edits with
  | nil => cases hedit
  | cons first later ih =>
    obtain ⟨hfirst, hlater⟩ := List.pairwise_cons.1 hordered
    rcases List.mem_cons.1 hedit with rfl | hedit'
    · rcases List.mem_cons.1 hother with rfl | hother'
      · rfl
      · have := hfirst other hother'
        omega
    · rcases List.mem_cons.1 hother with rfl | hother'
      · have := hfirst edit hedit'
        omega
      · exact ih hlater hedit' hother'

namespace Reachable

variable {text : Text} {revision : Revision}

/-- Without their origins the tracked characters are the current text. -/
theorem text_tracked (h : Reachable text revision) :
    Tracked.text revision.tracked = revision.current := by
  obtain ⟨weave, rfl, -⟩ := h.exists_weave
  exact text_trackFrom_edits 0 0 weave.strands weave.tail

/-- The inserted texts stand one behind the other. -/
theorem pairwise_edits (h : Reachable text revision) :
    revision.edits.Pairwise fun edit later => edit.after.stop ≤ later.after.start := by
  obtain ⟨weave, rfl, -⟩ := h.exists_weave
  exact Strand.pairwise_edits 0 0 weave.strands

/-- A kept character stands where its place before all edits says, in either text. -/
theorem eq_append_of_keeps (h : Reachable text revision) {c : Char} {after before : Nat}
    (hkeeps : revision.Keeps c after before) :
    (∃ front back, revision.current = front ++ c :: back ∧ Text.size front = after) ∧
      ∃ front back, text = front ++ c :: back ∧ Text.size front = before := by
  obtain ⟨front, back, htracked, hafter⟩ := hkeeps
  constructor
  · refine ⟨Tracked.text front, Tracked.text back, ?_, hafter⟩
    rw [← h.text_tracked, htracked, Tracked.text_append, Tracked.text_cons]
  · obtain ⟨weave, rfl, rfl⟩ := h.exists_weave
    obtain ⟨-, ahead, behind, hbase, hplace⟩ := retraceThrough_edits 0 0 htracked
    exact ⟨ahead, behind, hbase, by rw [hplace, Nat.zero_add]⟩

/-- A character of the current text was kept exactly if no edit inserted it. -/
theorem exists_keeps_iff (h : Reachable text revision) {front back : Text} {c : Char}
    (hcurrent : revision.current = front ++ c :: back) :
    (∃ before, revision.Keeps c (Text.size front) before) ↔
      ∀ edit ∈ revision.edits,
        ¬ (edit.after.start ≤ Text.size front ∧ Text.size front < edit.after.stop) := by
  -- What the strands say, put for the whole revision.
  have hnone {ahead rest : List Tracked} {tracked : Tracked}
      (htracked : revision.tracked = ahead ++ tracked :: rest) :
      tracked.origin = none ↔ ∃ edit ∈ revision.edits,
        edit.after.start ≤ Text.size (Tracked.text ahead) ∧
          Text.size (Tracked.text ahead) < edit.after.stop := by
    obtain ⟨weave, rfl, -⟩ := h.exists_weave
    have horigin := origin_eq_none_iff 0 0 htracked
    rw [Nat.zero_add] at horigin
    exact horigin
  constructor
  · rintro ⟨before, ahead, rest, htracked, hsize⟩ edit hedit hinside
    rw [← hsize] at hinside
    exact absurd ((hnone htracked).2 ⟨edit, hedit, hinside⟩) (Option.some_ne_none before)
  · intro hkept
    -- The character is one of those tracked, and it remembers a place or none.
    rw [← h.text_tracked] at hcurrent
    obtain ⟨ahead, behind, htracked, rfl, hbehind⟩ := List.map_eq_append_iff.1 hcurrent
    obtain ⟨tracked, rest, rfl, rfl, rfl⟩ := List.map_eq_cons_iff.1 hbehind
    cases horigin : tracked.origin with
    | none =>
      obtain ⟨edit, hedit, hinside⟩ := (hnone htracked).1 horigin
      exact absurd hinside (hkept edit hedit)
    | some before =>
      refine ⟨before, ahead, rest, ?_, rfl⟩
      rw [htracked, ← horigin]

/-- A kept character is traced back to where it stood. -/
theorem retrace?_of_keeps (h : Reachable text revision) {c : Char} {after before : Nat}
    (hkeeps : revision.Keeps c after before) : revision.retrace? after = some before := by
  obtain ⟨⟨ahead, behind, hcurrent, hsize⟩, -⟩ := h.eq_append_of_keeps hkeeps
  have hle : after ≤ Text.size revision.current := by
    rw [hcurrent, Text.size_append, hsize]
    exact Nat.le_add_right ..
  obtain ⟨front, back, htracked, rfl⟩ := hkeeps
  obtain ⟨weave, rfl, rfl⟩ := h.exists_weave
  obtain ⟨htrace, -⟩ := retraceThrough_edits 0 0 htracked
  rw [Nat.zero_add] at htrace
  rw [retrace?, Nat.min_eq_left hle]
  exact htrace

/-- An offset is lost exactly inside generated text of another length than what it replaced. -/
theorem retrace?_eq_none_iff (h : Reachable text revision) {offset : Nat}
    (hle : offset ≤ Text.size revision.current) :
    revision.retrace? offset = none ↔ revision.Discards offset := by
  have hproper : ∀ edit ∈ revision.edits, edit.after.start ≤ edit.after.stop := by
    obtain ⟨weave, rfl, -⟩ := h.exists_weave
    exact fun edit hedit => Strand.start_le_stop_of_mem_edits hedit
  rw [retrace?, Nat.min_eq_left hle]
  exact retraceThrough_eq_none_iff hproper h.pairwise_edits

/-- The end of a span is never lost. -/
theorem exists_retraceStop? (h : Reachable text revision) {offset : Nat}
    (hle : offset ≤ Text.size revision.current) :
    ∃ stop, revision.retraceStop? offset = some stop := by
  rw [← Option.ne_none_iff_exists']
  unfold retraceStop?
  cases henclosing : revision.enclosing? offset with
  | none =>
    simp only [ne_eq, h.retrace?_eq_none_iff hle]
    rintro ⟨edit, hedit, hstart, hstop, -⟩
    have := List.find?_eq_none.1 henclosing edit hedit
    simp [hstart, hstop] at this
  | some edit =>
    have hin := List.find?_some henclosing
    have hedit := List.mem_of_find?_eq_some henclosing
    simp only [decide_eq_true_eq] at hin
    -- An end that is not moved out of the insertion lies in one that kept its length.
    by_cases hwidens : edit.inside = .anchored ∨ ¬ edit.keepsLength
    · simp only [if_pos hwidens, ne_eq, reduceCtorEq, not_false_eq_true]
    · simp only [if_neg hwidens, ne_eq, h.retrace?_eq_none_iff hle]
      rintro ⟨other, hother, hstart, hstop, -, hlength⟩
      obtain rfl := eq_of_mem_edits h.pairwise_edits hedit hother hin ⟨hstart, hstop⟩
      simp [Edit.keepsLength, hlength] at hwidens

/-- A diagnostic is lost exactly if it begins inside generated text of another length than what it
replaced; otherwise it begins where its begin is traced back to. -/
theorem retraceDiagnostic?_cases (h : Reachable text revision) (diagnostic : Diagnostic) :
    (revision.Discards (revision.current.offset diagnostic.range.start) ∧
      revision.retraceDiagnostic? diagnostic = none) ∨
    ∃ before traced,
      revision.retrace? (revision.current.offset diagnostic.range.start) = some before ∧
      revision.retraceDiagnostic? diagnostic = some traced ∧
      ¬ revision.Discards (revision.current.offset diagnostic.range.start) ∧
      traced.path = diagnostic.path ∧ traced.range.start = text.position before := by
  have hstart := Text.offset_le_size revision.current diagnostic.range.start
  obtain ⟨stop, hstop⟩ := h.exists_retraceStop?
    (Nat.max_le.2 ⟨Text.offset_le_size revision.current diagnostic.range.stop, hstart⟩)
  unfold retraceDiagnostic? retraceSpan? Range.toSpan
  cases htrace : revision.retrace? (revision.current.offset diagnostic.range.start) with
  | none => exact Or.inl ⟨(h.retrace?_eq_none_iff hstart).1 htrace, by simp⟩
  | some before =>
    have hkept : ¬ revision.Discards (revision.current.offset diagnostic.range.start) := by
      rw [← h.retrace?_eq_none_iff hstart, htrace]
      exact Option.some_ne_none before
    refine Or.inr ⟨before, { diagnostic with
      range := Range.ofSpan revision.base ⟨before, max stop before⟩ }, rfl, ?_, hkept, rfl, ?_⟩
    · simp only [hstop]
      rfl
    · rw [← h.base_eq]
      rfl

end Reachable

end Revision

end Retrace
