import Retrace.Proofs.Revision.Monotone
import Retrace.Proofs.Text.Span

/-!
# By how much edits move a text

An edit moves the text behind it by the difference in length between what it inserts and what it
replaces. The whole text has grown by the sum of these differences, and an offset that lies in no
insertion is traced back by the sum over the edits that end ahead of it. An offset inside an
insertion stands for a place in what was replaced, or for nothing.

## Main definitions

* `Edit.growth`, `Revision.growth`: by how much edits move the text behind them;
* `Revision.endingBy`: the edits whose insertions end ahead of an offset or at it.

## Main results

* `Reachable.growth_eq`: the text has grown by what its edits have added;
* `Reachable.within_after`, `Reachable.slice_after`: insertions lie in the current text, and it
  holds what was inserted;
* `retrace?_of_reachable`: where every offset is traced back to.
-/

namespace Retrace

/-- By how many bytes an edit moves the text behind it. -/
def Edit.growth (edit : Edit) : Int :=
  (Text.size edit.inserted : Int) - edit.before.length

namespace Revision

/-- By how many bytes some edits together move the text behind them. -/
def growth : List Edit → Int
  | [] => 0
  | edit :: later => edit.growth + growth later

/-- The edits whose insertions end ahead of an offset or at it. -/
def endingBy (edits : List Edit) (offset : Nat) : List Edit :=
  edits.filter fun edit => edit.after.stop ≤ offset

@[simp] theorem growth_nil : growth [] = 0 := rfl

@[simp] theorem growth_cons (edit : Edit) (later : List Edit) :
    growth (edit :: later) = edit.growth + growth later := rfl

/-- No edit ends by an offset that lies ahead of the ends of all of them. -/
theorem endingBy_eq_nil {edits : List Edit} {offset : Nat}
    (h : ∀ edit ∈ edits, offset < edit.after.stop) : endingBy edits offset = [] :=
  List.filter_eq_nil_iff.2 fun edit hedit => by simpa using h edit hedit

theorem endingBy_cons {edit : Edit} {offset : Nat} (h : edit.after.stop ≤ offset)
    (later : List Edit) : endingBy (edit :: later) offset = edit :: endingBy later offset :=
  List.filter_cons_of_pos (decide_eq_true h)

/-! ## Along the strands -/

section Strands

variable {before after offset : Nat} {strands : List Strand}

theorem growth_edit (before after : Nat) (strand : Strand) :
    (strand.edit before after).growth =
      (Text.size strand.inserted : Int) - Text.size strand.removed := by
  simp only [Edit.growth, Strand.edit, Span.length]
  omega

theorem growth_edits (before after : Nat) (strands : List Strand) :
    growth (Strand.edits before after strands) =
      (Text.size (Strand.currents strands) : Int) - Text.size (Strand.bases strands) := by
  induction strands generalizing before after with
  | nil => rfl
  | cons strand later ih =>
    rw [Strand.edits, growth_cons, ih, growth_edit, Strand.currents_cons, Strand.bases_cons]
    simp only [Text.size_append]
    omega

/-- The text of the strands is cut by an insertion into what is ahead of it, the inserted text and
what is behind it. -/
theorem exists_append_of_mem_edits {edit : Edit} (h : edit ∈ Strand.edits before after strands)
    (tail : Text) : ∃ front back,
      Strand.currents strands ++ tail = front ++ (edit.inserted ++ back) ∧
      edit.after = ⟨after + Text.size front, after + Text.size (front ++ edit.inserted)⟩ := by
  induction strands generalizing before after with
  | nil => cases h
  | cons strand later ih =>
    rcases List.mem_cons.1 h with rfl | h
    · refine ⟨strand.kept, Strand.currents later ++ tail, ?_, ?_⟩
      · simp only [Strand.currents_cons, Strand.edit, List.append_assoc]
      · simp only [Strand.edit, Text.size_append, Nat.add_assoc]
    · obtain ⟨front, back, hcurrents, hafter⟩ := ih h
      refine ⟨strand.kept ++ (strand.inserted ++ front), back, ?_, ?_⟩
      · simp only [Strand.currents_cons, List.append_assoc, hcurrents]
      · simp only [hafter, Strand.edit, Text.size_append, Nat.add_assoc]

/-- An offset that lies strictly inside no insertion is traced back by what the edits that end by it
have added, and stays between the ends of the text. -/
theorem exists_retraceThrough_eq (hafter : after ≤ offset)
    (houtside : ∀ edit ∈ Strand.edits before after strands,
      ¬ (edit.after.start < offset ∧ offset < edit.after.stop)) (tail : Text)
    (hle : offset ≤ after + Text.size (Strand.currents strands ++ tail)) :
    ∃ place : Nat,
      retraceThrough offset ((after : Int) - before) (Strand.edits before after strands) =
        some place ∧
      (place : Int) = offset - ((after : Int) - before) -
        growth (endingBy (Strand.edits before after strands) offset) ∧
      place ≤ before + Text.size (Strand.bases strands ++ tail) := by
  induction strands generalizing before after with
  | nil =>
    refine ⟨before + (offset - after), ?_, ?_, ?_⟩
    · rw [Strand.edits, retraceThrough, Option.some.injEq]
      omega
    · rw [Strand.edits, endingBy, List.filter_nil, growth_nil]
      omega
    · rw [Strand.currents_nil, List.nil_append] at hle
      rw [Strand.bases_nil, List.nil_append]
      omega
  | cons strand later ih =>
    obtain ⟨hfirst, hlater⟩ := List.forall_mem_cons.1 houtside
    by_cases hstop : (strand.edit before after).after.stop ≤ offset
    · -- The first edit is passed, and moves everything behind it by its growth.
      have hle' : offset ≤ (strand.edit before after).after.stop +
          Text.size (Strand.currents later ++ tail) := by
        simp only [Strand.currents_cons, Text.size_append] at hle
        simp only [Strand.edit, Text.size_append]
        omega
      obtain ⟨place, hplace, hgrowth, hbound⟩ := ih hstop hlater hle'
      refine ⟨place, ?_, ?_, ?_⟩
      · rw [Strand.edits, retraceThrough_of_stop_le (Nat.le_add_right ..) hstop]
        exact hplace
      · rw [Strand.edits, endingBy_cons hstop, growth_cons, growth_edit, hgrowth]
        simp only [Strand.edit]
        omega
      · simp only [Strand.edit, Text.size_append] at hbound
        simp only [Strand.bases_cons, Text.size_append]
        omega
    · -- The offset lies ahead of the first edit or where it begins, so no edit ends by it.
      have hbegin : offset ≤ (strand.edit before after).after.start := by omega
      have hnone : endingBy (Strand.edits before after (strand :: later)) offset = [] := by
        refine endingBy_eq_nil fun edit hedit => ?_
        rcases List.mem_cons.1 hedit with rfl | hedit
        · exact Nat.not_le.1 hstop
        · have hle := Strand.le_start_of_mem_edits hedit
          have hle' := Strand.start_le_stop_of_mem_edits hedit
          omega
      refine ⟨before + (offset - after), ?_, ?_, ?_⟩
      · rcases Nat.lt_or_eq_of_le hbegin with hahead | rfl
        · rw [Strand.edits, retraceThrough_of_lt hahead, Option.some.injEq]
          omega
        · rw [Strand.edits, retraceThrough_start (Nat.not_le.1 hstop), Option.some.injEq]
          simp only [Strand.edit]
          omega
      · rw [hnone, growth_nil]
        omega
      · simp only [Strand.edit] at hbegin
        simp only [Strand.bases_cons, Text.size_append]
        omega

end Strands

/-- An offset strictly inside an insertion is looked up in its edit. -/
theorem retraceThrough_eq_retraceInside {edits : List Edit} {edit : Edit} {offset : Nat}
    {passed : Int} (hproper : ∀ edit ∈ edits, edit.after.start ≤ edit.after.stop)
    (hordered : edits.Pairwise fun edit later => edit.after.stop ≤ later.after.start)
    (hedit : edit ∈ edits) (hstart : edit.after.start < offset) (hstop : offset < edit.after.stop) :
    retraceThrough offset passed edits = retraceInside edit offset := by
  induction edits generalizing passed with
  | nil => cases hedit
  | cons first later ih =>
    obtain ⟨hfirst, hlater⟩ := List.pairwise_cons.1 hordered
    obtain ⟨hle, hproper⟩ := List.forall_mem_cons.1 hproper
    rcases List.mem_cons.1 hedit with rfl | hmem
    · exact retraceThrough_of_inside hstart hstop
    · -- All insertions ahead of the one in question are passed.
      have hpassed : first.after.stop ≤ offset :=
        Nat.le_trans (hfirst edit hmem) (Nat.le_of_lt hstart)
      rw [retraceThrough_of_stop_le hle hpassed]
      exact ih hproper hlater hmem

/-! ## Whole revisions -/

namespace Reachable

variable {text : Text} {revision : Revision}

/-- The text has grown by what its edits have added. -/
theorem growth_eq (h : Reachable text revision) :
    growth revision.edits = (Text.size revision.current : Int) - Text.size text := by
  obtain ⟨weave, rfl, rfl⟩ := h.exists_weave
  simp only [Weave.revision, growth_edits, Text.size_append]
  omega

/-- No insertion ends before it begins. -/
theorem start_le_stop (h : Reachable text revision) :
    ∀ edit ∈ revision.edits, edit.after.start ≤ edit.after.stop := by
  obtain ⟨weave, rfl, -⟩ := h.exists_weave
  exact fun edit hedit => Strand.start_le_stop_of_mem_edits hedit

/-- The current text is cut by an insertion into what is ahead of it, the inserted text and what is
behind it. -/
theorem exists_append (h : Reachable text revision) {edit : Edit} (hedit : edit ∈ revision.edits) :
    ∃ front back, revision.current = front ++ (edit.inserted ++ back) ∧
      edit.after = ⟨Text.size front, Text.size (front ++ edit.inserted)⟩ := by
  obtain ⟨weave, rfl, -⟩ := h.exists_weave
  obtain ⟨front, back, hcurrent, hafter⟩ := exists_append_of_mem_edits hedit weave.tail
  simp only [Nat.zero_add] at hafter
  exact ⟨front, back, hcurrent, hafter⟩

/-- Insertions lie in the current text, between two characters each. -/
theorem within_after (h : Reachable text revision) {edit : Edit} (hedit : edit ∈ revision.edits) :
    edit.after.Within revision.current 0 (Text.size revision.current) := by
  obtain ⟨front, back, hcurrent, hafter⟩ := h.exists_append hedit
  rw [hafter, Text.size_append]
  exact Text.StandsAt.within ⟨front, back, hcurrent, rfl⟩

/-- Where an insertion stands, the current text holds what was inserted. -/
theorem slice_after (h : Reachable text revision) {edit : Edit} (hedit : edit ∈ revision.edits) :
    revision.current.slice edit.after.start edit.after.stop = edit.inserted := by
  obtain ⟨front, back, hcurrent, hafter⟩ := h.exists_append hedit
  rw [hafter, hcurrent]
  exact Text.slice_append

/-- An insertion has the length of what was inserted. -/
theorem length_after (h : Reachable text revision) {edit : Edit} (hedit : edit ∈ revision.edits) :
    edit.after.length = Text.size edit.inserted := by
  obtain ⟨front, back, -, hafter⟩ := h.exists_append hedit
  rw [hafter, Span.length, Text.size_append, Nat.add_sub_cancel_left]

/-- An offset that lies strictly inside no insertion is traced back by what the edits that end by it
have added. -/
theorem exists_retrace?_eq (h : Reachable text revision) {offset : Nat}
    (hle : offset ≤ Text.size revision.current)
    (houtside : ∀ edit ∈ revision.edits,
      ¬ (edit.after.start < offset ∧ offset < edit.after.stop)) :
    ∃ place : Nat, revision.retrace? offset = some place ∧
      (place : Int) = offset - growth (endingBy revision.edits offset) ∧
      place ≤ Text.size text := by
  obtain ⟨weave, rfl, rfl⟩ := h.exists_weave
  obtain ⟨place, hplace, hgrowth, hbound⟩ := exists_retraceThrough_eq (Nat.zero_le offset)
    houtside weave.tail (by rw [Nat.zero_add]; exact hle)
  refine ⟨place, ?_, ?_, ?_⟩
  · rw [retrace?, Nat.min_eq_left hle]
    exact hplace
  · simpa [Weave.revision] using hgrowth
  · simpa [Weave.revision] using hbound

/-- An offset strictly inside an insertion stands for a place of its own if nothing has grown there.
Otherwise it stands for the start of what was replaced, or for nothing. -/
theorem retrace?_inside (h : Reachable text revision) {offset : Nat} {edit : Edit}
    (hedit : edit ∈ revision.edits) (hstart : edit.after.start < offset)
    (hstop : offset < edit.after.stop) :
    revision.retrace? offset =
      if Text.size edit.inserted = edit.before.length then
        some (edit.before.start + (offset - edit.after.start))
      else match edit.inside with
        | .anchored => some edit.before.start
        | .discarded => none := by
  have hle : offset ≤ Text.size revision.current :=
    Nat.le_trans (Nat.le_of_lt hstop) (h.within_after hedit).le_stop
  rw [retrace?, Nat.min_eq_left hle,
    retraceThrough_eq_retraceInside h.start_le_stop h.pairwise_edits hedit hstart hstop,
    retraceInside]
  have hkeeps : edit.keepsLength ↔ Text.size edit.inserted = edit.before.length := by
    rw [Edit.keepsLength, decide_eq_true_eq, h.length_after hedit, eq_comm]
  by_cases hlength : Text.size edit.inserted = edit.before.length
  · rw [if_pos hlength, if_pos (hkeeps.2 hlength)]
  · rw [if_neg hlength]
    exact if_neg (mt hkeeps.1 hlength)

/-- All bytes of a kept character are traced back to where they stood. -/
theorem retrace?_add_of_keeps (h : Reachable text revision) {c : Char} {after before : Nat}
    (hkeeps : revision.Keeps c after before) {byte : Nat} (hbyte : byte < c.utf8Size) :
    revision.retrace? (after + byte) = some (before + byte) := by
  obtain ⟨⟨front, back, hcurrent, rfl⟩, -⟩ := h.eq_append_of_keeps hkeeps
  have hkept := (h.exists_keeps_iff hcurrent).1 ⟨before, hkeeps⟩
  have hsize : Text.size front + c.utf8Size ≤ Text.size revision.current := by
    rw [hcurrent, Text.size_append, Text.size_cons]
    omega
  -- Insertions begin and end between two characters, so each of them is ahead of all bytes of the
  -- character or behind all of them.
  have hapart : ∀ edit ∈ revision.edits, edit.after.stop ≤ Text.size front ∨
      Text.size front + c.utf8Size ≤ edit.after.start := by
    intro edit hedit
    have hstart := (h.within_after hedit).isBoundary_start
    rw [hcurrent] at hstart
    have hle := hstart.le_or_le
    have hnot := hkept edit hedit
    omega
  have hending : endingBy revision.edits (Text.size front + byte) =
      endingBy revision.edits (Text.size front) := by
    refine List.filter_congr fun edit hedit => ?_
    have hle := h.start_le_stop edit hedit
    have hor := hapart edit hedit
    rw [decide_eq_decide]
    omega
  have houtside (bytes : Nat) (hbytes : bytes < c.utf8Size) : ∀ edit ∈ revision.edits,
      ¬ (edit.after.start < Text.size front + bytes ∧
        Text.size front + bytes < edit.after.stop) := by
    intro edit hedit
    have hor := hapart edit hedit
    omega
  obtain ⟨place, hplace, hgrowth, -⟩ := h.exists_retrace?_eq
    (Nat.le_trans (Nat.le_add_right ..) hsize) (houtside 0 (Char.utf8Size_pos c))
  obtain ⟨place', hplace', hgrowth', -⟩ := h.exists_retrace?_eq
    (Nat.le_trans (Nat.add_le_add_left (Nat.le_of_lt hbyte) _) hsize) (houtside byte hbyte)
  obtain rfl : place = before :=
    Option.some.inj (hplace.symm.trans (h.retrace?_of_keeps hkeeps))
  rw [hplace', Option.some.injEq]
  rw [hending] at hgrowth'
  omega

end Reachable

/-- Offsets behind the end of the current text count as its end. An offset strictly inside an
insertion stands for a place of its own if what was inserted has the length of what was replaced;
otherwise it stands for the start of what was replaced, or for nothing if the text is generated. Any
other offset is traced back by what the edits that end by it have added, to a place in the text
before all edits. So all bytes of a character that no edit has inserted are traced back to where
they stood, and no offset is traced back ahead of an earlier one. -/
theorem retrace?_of_reachable {text : Text} {revision : Revision} (h : Reachable text revision) :
    (∀ offset, revision.retrace? offset =
      revision.retrace? (min offset (Text.size revision.current))) ∧
    (∀ offset ≤ Text.size revision.current,
      (∀ edit ∈ revision.edits, edit.after.start < offset → offset < edit.after.stop →
        revision.retrace? offset =
          if Text.size edit.inserted = edit.before.length then
            some (edit.before.start + (offset - edit.after.start))
          else match edit.inside with
            | .anchored => some edit.before.start
            | .discarded => none) ∧
      ((∀ edit ∈ revision.edits, ¬ (edit.after.start < offset ∧ offset < edit.after.stop)) →
        ∃ place : Nat, revision.retrace? offset = some place ∧
          (place : Int) = offset - growth (endingBy revision.edits offset) ∧
          place ≤ Text.size text)) ∧
    (∀ {front c back}, revision.current = front ++ c :: back →
      (∀ edit ∈ revision.edits,
        ¬ (edit.after.start ≤ Text.size front ∧ Text.size front < edit.after.stop)) →
      ∃ ahead behind, text = ahead ++ c :: behind ∧
        revision.Keeps c (Text.size front) (Text.size ahead) ∧
        ∀ byte < c.utf8Size,
          revision.retrace? (Text.size front + byte) = some (Text.size ahead + byte)) ∧
    ∀ {first second place place'}, first ≤ second → revision.retrace? first = some place →
      revision.retrace? second = some place' → place ≤ place' := by
  refine ⟨fun offset => ?_, fun offset hle => ⟨fun edit hedit => h.retrace?_inside hedit,
    h.exists_retrace?_eq hle⟩, fun {front c back} hcurrent hkept => ?_, h.retrace?_mono⟩
  · rw [retrace?, retrace?, Nat.min_assoc, Nat.min_self]
  · obtain ⟨before, hkeeps⟩ := (h.exists_keeps_iff hcurrent).2 hkept
    obtain ⟨-, ahead, behind, htext, rfl⟩ := h.eq_append_of_keeps hkeeps
    exact ⟨ahead, behind, htext, hkeeps, fun byte => h.retrace?_add_of_keeps hkeeps⟩

/-- A text with a character of two bytes that was respelled, a keyword that was replaced by an
operator, and a word that was put in right behind the keyword. -/
def respelled : Revision where
  base := "aé ALWAYS b".toList
  current := "aue A[] now b".toList
  edits := [⟨⟨1, 3⟩, ⟨1, 3⟩, ['u', 'e'], .discarded⟩,
    ⟨⟨4, 10⟩, ⟨4, 7⟩, ['A', '[', ']'], .discarded⟩,
    ⟨⟨10, 10⟩, ⟨7, 11⟩, [' ', 'n', 'o', 'w'], .anchored⟩]

/-- Inside the spelling, offsets are traced back one by one, inside the operator to nothing, inside
the word to where it was put in; behind all edits they move by one. -/
theorem retrace?_of_reachable_respelled :
    Reachable "aé ALWAYS b".toList respelled ∧ respelled.retrace? 2 = some 2 ∧
      respelled.retrace? 5 = none ∧ respelled.retrace? 9 = some 10 ∧
      (∃ place : Nat, respelled.retrace? 12 = some place ∧ (place : Int) = 12 - 1 ∧
        place ≤ Text.size "aé ALWAYS b".toList) ∧
      respelled.retrace? 99 = respelled.retrace? 13 := by
  have hreachable : Reachable "aé ALWAYS b".toList respelled :=
    @Reachable.replace _ _ _ ⟨10, 10⟩ [' ', 'n', 'o', 'w'] .anchored
      (@Reachable.replace _ _ _ ⟨4, 10⟩ ['A', '[', ']'] .discarded
        (@Reachable.replace _ _ _ ⟨1, 3⟩ ['u', 'e'] .discarded .ofText rfl) rfl) rfl
  obtain ⟨hclamped, hplaces, -, -⟩ := retrace?_of_reachable hreachable
  have hsize : Text.size respelled.current = 13 := rfl
  rw [hsize] at hplaces
  refine ⟨hreachable, ?_, ?_, ?_, ?_, hclamped 99⟩
  · exact (hplaces 2 (by decide)).1 ⟨⟨1, 3⟩, ⟨1, 3⟩, ['u', 'e'], .discarded⟩ (by decide) (by decide)
      (by decide)
  · exact (hplaces 5 (by decide)).1 ⟨⟨4, 10⟩, ⟨4, 7⟩, ['A', '[', ']'], .discarded⟩ (by decide)
      (by decide) (by decide)
  · exact (hplaces 9 (by decide)).1 ⟨⟨10, 10⟩, ⟨7, 11⟩, [' ', 'n', 'o', 'w'], .anchored⟩
      (by decide) (by decide) (by decide)
  · obtain ⟨place, hplace, hgrowth, hle⟩ := (hplaces 12 (by decide)).2 (by decide)
    exact ⟨place, hplace, hgrowth, hle⟩

end Revision

end Retrace
