import Retrace.Proofs.Grammar.Fits

/-!
# Repetitions are searched to the end

`Chart.iterate` visits places round by round and records for each place found the one it was reached
from. When it ends, every record is a step of the iterated expression that reads something, and
every such step from a place that was visited leads to a recorded place (`Chart.explored_iterate`).
Following the records back from an end gives the iterations that lead there
(`Chart.Explored.exists_cuts`).
-/

namespace Retrace.Chart

open Std (TreeMap)

variable {grammar : Grammar} {ends : Chart → List Nat} {chart : Chart} {front back : Text}

/-- At every place ahead, ends lie in the text ahead of that place. -/
def EndsAhead (ends : Chart → List Nat) (chart : Chart) (front back : Text) : Prop :=
  ∀ {middle rest : Text}, back = middle ++ rest → ∀ {stop : Nat},
    stop ∈ ends (chart.seek (Text.size (front ++ middle))) → Text.Ahead (front ++ middle) rest stop

/-- What taking some offsets into account changes. -/
structure Reached (here : Chart) (stops : List Nat) (before after : List Chart × TreeMap Nat Nat) :
    Prop where
  /-- The offsets behind the place are recorded. -/
  mem_iff : ∀ {stop}, stop ∈ after.2 ↔ stop ∈ before.2 ∨ stop ∈ stops ∧ here.offset < stop
  /-- New records lead back to the place, and replace none. -/
  record : ∀ {stop previous}, after.2[stop]? = some previous → before.2[stop]? = some previous ∨
    previous = here.offset ∧ stop ∈ stops ∧ here.offset < stop ∧ stop ∉ before.2
  /-- Places found before are kept. -/
  kept : before.1 ⊆ after.1
  /-- New places are those of the offsets that were not recorded before. -/
  place : ∀ {found}, found ∈ after.1 → found ∈ before.1 ∨
    ∃ stop ∈ stops, here.offset < stop ∧ stop ∉ before.2 ∧ found = here.seek stop
  /-- Offsets that were not recorded before are places to visit. -/
  found : ∀ {stop}, stop ∈ stops → here.offset < stop → stop ∈ before.2 ∨ here.seek stop ∈ after.1

namespace Reached

variable {here : Chart} {stops stops' : List Nat}
  {before middle after : List Chart × TreeMap Nat Nat}

theorem nil : Reached here [] before before :=
  ⟨by simp, Or.inl, List.Subset.refl _, Or.inl, fun h => (List.not_mem_nil h).elim⟩

/-- Taking one offset into account. -/
theorem single (stop : Nat) : Reached here [stop] before (reach here before stop) := by
  rw [reach]
  split
  · -- The offset does not lie behind the place, or it has been found before.
    rename_i hskip
    rw [TreeMap.contains_iff_mem] at hskip
    refine ⟨fun {other} => ⟨Or.inl, ?_⟩, Or.inl, List.Subset.refl _, Or.inl,
      fun {other} hother => ?_⟩
    · rintro (h | ⟨hother, hlt⟩)
      · exact h
      · rw [List.mem_singleton.1 hother] at hlt ⊢
        exact hskip.resolve_left (Nat.not_le.2 hlt)
    · rw [List.mem_singleton.1 hother]
      exact fun hlt => Or.inl (hskip.resolve_left (Nat.not_le.2 hlt))
  · rename_i hnew
    -- A new offset is recorded with the place it was reached from, and waits itself.
    have hlt : here.offset < stop := Nat.not_le.1 fun hle => hnew (Or.inl hle)
    have hnot : stop ∉ before.2 := fun hmem => hnew (Or.inr (TreeMap.contains_iff_mem.2 hmem))
    refine ⟨fun {other} => ?_, fun {other previous} h => ?_, List.subset_cons_self .., ?_, ?_⟩
    · rw [TreeMap.mem_insert, Nat.compare_eq_eq, List.mem_singleton]
      constructor
      · rintro (rfl | h)
        · exact Or.inr ⟨rfl, hlt⟩
        · exact Or.inl h
      · rintro (h | ⟨rfl, -⟩)
        · exact Or.inr h
        · exact Or.inl rfl
    · rw [TreeMap.getElem?_insert] at h
      split at h
      · rename_i heq
        obtain rfl := Nat.compare_eq_eq.1 heq
        exact Or.inr ⟨(Option.some.inj h).symm, List.mem_singleton.2 rfl, hlt, hnot⟩
      · exact Or.inl h
    · intro found h
      rcases List.mem_cons.1 h with rfl | h
      · exact Or.inr ⟨stop, List.mem_singleton.2 rfl, hlt, hnot, rfl⟩
      · exact Or.inl h
    · intro other hother _
      rw [List.mem_singleton.1 hother]
      exact Or.inr List.mem_cons_self

/-- Offsets are taken into account one after the other. -/
theorem append (h : Reached here stops before middle) (h' : Reached here stops' middle after) :
    Reached here (stops ++ stops') before after where
  mem_iff := by
    intro stop
    rw [h'.mem_iff, h.mem_iff, List.mem_append, or_assoc, or_and_right]
  record := by
    intro stop previous hrecord
    rcases h'.record hrecord with hrecord | ⟨hprevious, hstop, hlt, hnot⟩
    · rcases h.record hrecord with hrecord | ⟨hprevious, hstop, hlt⟩
      · exact Or.inl hrecord
      · exact Or.inr ⟨hprevious, List.mem_append_left _ hstop, hlt⟩
    · refine Or.inr ⟨hprevious, List.mem_append_right _ hstop, hlt, ?_⟩
      exact fun hmem => hnot (h.mem_iff.2 (Or.inl hmem))
  kept := List.Subset.trans h.kept h'.kept
  place := by
    intro found hfound
    rcases h'.place hfound with hfound | ⟨stop, hstop, hlt, hnot, hplace⟩
    · rcases h.place hfound with hfound | ⟨stop, hstop, hplace⟩
      · exact Or.inl hfound
      · exact Or.inr ⟨stop, List.mem_append_left _ hstop, hplace⟩
    · refine Or.inr ⟨stop, List.mem_append_right _ hstop, hlt, ?_, hplace⟩
      exact fun hmem => hnot (h.mem_iff.2 (Or.inl hmem))
  found := by
    intro stop hstop hlt
    rcases List.mem_append.1 hstop with hstop | hstop
    · exact (h.found hstop hlt).imp_right fun hfound => h'.kept hfound
    · -- What the first offsets recorded was either known before or is still to be visited.
      rcases h'.found hstop hlt with hmem | hfound
      · rcases h.mem_iff.1 hmem with hmem | ⟨hstop', -⟩
        · exact Or.inl hmem
        · exact (h.found hstop' hlt).imp_right fun hfound => h'.kept hfound
      · exact Or.inr hfound

theorem foldl (here : Chart) (stops : List Nat) (before : List Chart × TreeMap Nat Nat) :
    Reached here stops before (stops.foldl (reach here) before) := by
  induction stops generalizing before with
  | nil => exact .nil
  | cons stop stops ih => exact (single stop).append (ih (reach here before stop))

end Reached

/-- An iteration that reads something. -/
structure Step (ends : Chart → List Nat) (chart : Chart) (start stop : Nat) : Prop where
  /-- Something is read. -/
  lt : start < stop
  /-- The iteration ends there. -/
  mem : stop ∈ ends (chart.seek start)

/-- Iterations that lead from one offset to another, by their ends. -/
inductive Trail (ends : Chart → List Nat) (chart : Chart) : (start : Nat) → List Nat → Nat → Prop
  | nil (offset : Nat) : Trail ends chart offset [] offset
  | cons {start middle stop : Nat} {later : List Nat} : Step ends chart start middle →
      Trail ends chart middle later stop → Trail ends chart start (middle :: later) stop

/-- The state of a search from a place: where ends lie that have been recorded, and which places
have still to be visited. -/
structure Explored (ends : Chart → List Nat) (chart : Chart) (front back : Text)
    (waiting : List Chart) (table : TreeMap Nat Nat) : Prop where
  /-- What is recorded lies ahead. -/
  ahead : ∀ {offset}, offset ∈ table → Text.Ahead front back offset
  /-- Every record is a step ahead from the start or from a recorded place. -/
  record : ∀ {stop previous}, table[stop]? = some previous →
    (previous = Text.size front ∨ previous ∈ table) ∧ Step ends chart previous stop
  /-- Only the start and recorded places are visited. -/
  waits : ∀ {here}, here ∈ waiting →
    ∃ offset, (offset = Text.size front ∨ offset ∈ table) ∧ here = chart.seek offset
  /-- Steps ahead from places that have been visited are recorded. -/
  closed : ∀ {offset stop}, offset = Text.size front ∨ offset ∈ table →
    Step ends chart offset stop → chart.seek offset ∈ waiting ∨ stop ∈ table

namespace Explored

variable {waiting : List Chart} {table : TreeMap Nat Nat}

/-- The places that are visited lie in the text ahead. -/
theorem visited_ahead (h : Explored ends chart front back waiting table) {offset : Nat}
    (hoffset : offset = Text.size front ∨ offset ∈ table) : Text.Ahead front back offset := by
  rcases hoffset with rfl | hoffset
  · exact .start front back
  · exact h.ahead hoffset

/-- At first only the start waits. -/
theorem start (h : chart.Fits grammar front back) : Explored ends chart front back [chart] ∅ where
  ahead hmem := (TreeMap.not_mem_emptyc hmem).elim
  record hrecord := by
    rw [TreeMap.getElem?_emptyc] at hrecord
    cases hrecord
  waits hmem := by
    rw [List.mem_singleton.1 hmem]
    exact ⟨_, Or.inl rfl, (seek_of_le (Nat.le_of_eq h.offset_eq.symm)).symm⟩
  closed := by
    -- Nothing is recorded yet, so the only place visited is the start, and it waits.
    rintro offset stop (rfl | hmem) -
    · rw [seek_of_le (Nat.le_of_eq h.offset_eq.symm)]
      exact Or.inl List.mem_cons_self
    · exact (TreeMap.not_mem_emptyc hmem).elim

/-- After a visit, steps from the places that were known before it lead to what is recorded, unless
they still wait. -/
theorem closed_of_reached {here : Chart} {others : List Chart}
    {before after : List Chart × TreeMap Nat Nat}
    (h : Explored ends chart front back (here :: others ++ before.1) before.2)
    (hfits : chart.Fits grammar front back) (hreached : Reached here (ends here) before after)
    {offset stop : Nat} (hoffset : offset = Text.size front ∨ offset ∈ before.2)
    (hstep : Step ends chart offset stop) :
    chart.seek offset ∈ others ++ after.1 ∨ stop ∈ after.2 := by
  rcases h.closed hoffset hstep with hwaits | hmem
  · rcases List.mem_cons.1 hwaits with rfl | hwaits
    · -- The place is the one that is visited now.
      obtain ⟨middle, rest, rfl, rfl⟩ := h.visited_ahead hoffset
      have hlt := hstep.lt
      rw [← hfits.seek.offset_eq] at hlt
      exact Or.inr (hreached.mem_iff.2 (Or.inr ⟨hstep.mem, hlt⟩))
    · refine Or.inl (List.mem_append.2 ?_)
      exact (List.mem_append.1 hwaits).imp_right fun hmem => hreached.kept hmem
  · exact Or.inr (hreached.mem_iff.2 (Or.inl hmem))

/-- Visiting a place that waits. -/
theorem visit (hfits : chart.Fits grammar front back)
    (hends : EndsAhead ends chart front back)
    {here : Chart} {others : List Chart} {before after : List Chart × TreeMap Nat Nat}
    (h : Explored ends chart front back (here :: others ++ before.1) before.2)
    (hreached : Reached here (ends here) before after) :
    Explored ends chart front back (others ++ after.1) after.2 := by
  have hclosed {other stop : Nat} (hother : other = Text.size front ∨ other ∈ before.2)
      (hstep : Step ends chart other stop) :
      chart.seek other ∈ others ++ after.1 ∨ stop ∈ after.2 :=
    h.closed_of_reached hfits hreached hother hstep
  obtain ⟨offset, hoffset, rfl⟩ := h.waits (List.mem_append_left _ List.mem_cons_self)
  obtain ⟨middle, rest, rfl, rfl⟩ := h.visited_ahead hoffset
  have hhere := hfits.seek.offset_eq
  have hmono {other : Nat} (hother : other = Text.size front ∨ other ∈ before.2) :
      other = Text.size front ∨ other ∈ after.2 :=
    hother.imp_right fun hmem => hreached.mem_iff.2 (Or.inl hmem)
  exact {
    ahead := by
      intro other hother
      rcases hreached.mem_iff.1 hother with hother | ⟨hother, -⟩
      · exact h.ahead hother
      · exact (hends rfl hother).append
    record := by
      intro stop previous hrecord
      rcases hreached.record hrecord with hrecord | ⟨rfl, hstop, hlt, -⟩
      · obtain ⟨hprevious, hstep⟩ := h.record hrecord
        exact ⟨hmono hprevious, hstep⟩
      · rw [hhere] at hlt ⊢
        exact ⟨hmono hoffset, hlt, hstop⟩
    waits := by
      intro found hfound
      rcases List.mem_append.1 hfound with hfound | hfound
      · obtain ⟨other, hother, heq⟩ :=
          h.waits (List.mem_append_left _ (List.mem_cons_of_mem _ hfound))
        exact ⟨other, hmono hother, heq⟩
      · rcases hreached.place hfound with hfound | ⟨stop, hstop, hlt, -, rfl⟩
        · obtain ⟨other, hother, heq⟩ := h.waits (List.mem_append_right _ hfound)
          exact ⟨other, hmono hother, heq⟩
        · refine ⟨stop, Or.inr (hreached.mem_iff.2 (Or.inr ⟨hstop, hlt⟩)), ?_⟩
          rw [seek_seek]
          rw [hhere] at hlt
          exact Nat.le_of_lt hlt
    closed := by
      intro other stop hother hstep
      rcases hother with hother | hother
      · exact hclosed (Or.inl hother) hstep
      · -- A place that this visit found waits itself, unless it had been found before.
        rcases hreached.mem_iff.1 hother with hother | ⟨hother, hnew⟩
        · exact hclosed (Or.inr hother) hstep
        · rcases hreached.found hother hnew with hother | hfound
          · exact hclosed (Or.inr hother) hstep
          · rw [hhere] at hnew
            rw [seek_seek (Nat.le_of_lt hnew)] at hfound
            exact Or.inl (List.mem_append_right _ hfound) }

end Explored

/-- A place further ahead has less of the text ahead. -/
theorem Fits.left_seek_lt (hfits : chart.Fits grammar front back) {stop : Nat}
    (hstop : Text.Ahead front back stop) (hlt : chart.offset < stop) :
    (chart.seek stop).left < chart.left := by
  obtain ⟨middle, rest, rfl, rfl⟩ := hstop
  rw [hfits.seek.left_eq, hfits.left_eq, List.length_append]
  have hmiddle : middle ≠ [] := by
    rintro rfl
    rw [hfits.offset_eq, List.append_nil] at hlt
    exact Nat.lt_irrefl _ hlt
  have hpos := List.length_pos_iff.2 hmiddle
  omega

namespace Explored

variable {waiting : List Chart} {table : TreeMap Nat Nat}

/-- In a round all places that wait are visited; those found have less of the text ahead. -/
theorem round (hfits : chart.Fits grammar front back)
    (hends : EndsAhead ends chart front back)
    {frontier : List Chart} {before : List Chart × TreeMap Nat Nat} {bound : Nat}
    (h : Explored ends chart front back (frontier ++ before.1) before.2)
    (hfrontier : ∀ here ∈ frontier, here.left ≤ bound)
    (hbefore : ∀ here ∈ before.1, here.left < bound) :
    let after := frontier.foldl (fun found here => (ends here).foldl (reach here) found) before
    Explored ends chart front back after.1 after.2 ∧ ∀ here ∈ after.1, here.left < bound := by
  induction frontier generalizing before with
  | nil => exact ⟨h, hbefore⟩
  | cons here others ih =>
    have hreached := Reached.foldl here (ends here) before
    refine ih (h.visit hfits hends hreached)
      (fun other hother => hfrontier other (List.mem_cons_of_mem _ hother)) fun found hfound => ?_
    -- A place that is found now lies further ahead than the one from which it was found.
    rcases hreached.place hfound with hfound | ⟨stop, hstop, hlt, -, rfl⟩
    · exact hbefore found hfound
    · obtain ⟨offset, hoffset, rfl⟩ := h.waits (List.mem_append_left _ List.mem_cons_self)
      obtain ⟨middle, rest, rfl, rfl⟩ := h.visited_ahead hoffset
      exact Nat.lt_of_lt_of_le (hfits.seek.left_seek_lt (hends rfl hstop) hlt)
        (hfrontier _ List.mem_cons_self)

/-- With more rounds than characters ahead of any place that waits, nothing waits in the end. -/
theorem explore (hfits : chart.Fits grammar front back)
    (hends : EndsAhead ends chart front back)
    {rounds : Nat} (h : Explored ends chart front back waiting table)
    (hwaiting : ∀ here ∈ waiting, here.left < rounds) :
    Explored ends chart front back [] (Chart.explore ends rounds waiting table) := by
  induction rounds generalizing waiting table with
  | zero =>
    obtain rfl : waiting = [] := by
      refine List.eq_nil_iff_forall_not_mem.2 fun here hhere => ?_
      exact absurd (hwaiting here hhere) (Nat.not_lt_zero _)
    exact h
  | succ rounds ih =>
    cases waiting with
    | nil => exact h
    | cons here others =>
      rw [Chart.explore]
      have hstart : Explored ends chart front back
          (here :: others ++ (([], table) : List Chart × TreeMap Nat Nat).1)
          (([], table) : List Chart × TreeMap Nat Nat).2 := by
        rw [List.append_nil]
        exact h
      have hround := round hfits hends hstart
        (fun other hother => Nat.le_of_lt_succ (hwaiting other hother)) (by simp)
      generalize (here :: others).foldl _ _ = after at hround ⊢
      obtain ⟨found, table'⟩ := after
      obtain ⟨hexplored, hleft⟩ := hround
      -- The places found are visited in reverse order, which changes nothing of what is known.
      refine ih ⟨hexplored.ahead, hexplored.record, fun hmem => ?_, fun hoffset hstep => ?_⟩
        fun other hother => hleft other (List.mem_reverse.1 hother)
      · exact hexplored.waits (List.mem_reverse.1 hmem)
      · exact (hexplored.closed hoffset hstep).imp_left List.mem_reverse.2

/-- Where iterations from the start lead is recorded once nothing waits. -/
theorem mem_of_trail (h : Explored ends chart front back [] table) {start stop : Nat}
    {stops : List Nat} (htrail : Trail ends chart start stops stop)
    (hstart : start = Text.size front ∨ start ∈ table) :
    stop = Text.size front ∨ stop ∈ table := by
  induction htrail with
  | nil => exact hstart
  | cons hstep _ ih => exact ih (Or.inr ((h.closed hstart hstep).resolve_left List.not_mem_nil))

/-- Of two places that are visited, the one further ahead has less of the text ahead. -/
theorem left_seek_lt (hfits : chart.Fits grammar front back)
    (h : Explored ends chart front back waiting table) {offset stop : Nat}
    (hoffset : offset = Text.size front ∨ offset ∈ table)
    (hstop : stop = Text.size front ∨ stop ∈ table) (hlt : offset < stop) :
    (chart.seek stop).left < (chart.seek offset).left := by
  obtain ⟨middle, rest, rfl, rfl⟩ := h.visited_ahead hoffset
  rw [← seek_seek (Nat.le_of_lt hlt)]
  refine hfits.seek.left_seek_lt ((h.visited_ahead hstop).of_append (Nat.le_of_lt hlt)) ?_
  rw [hfits.seek.offset_eq]
  exact hlt

/-- The records lead back from an end to the start. -/
theorem exists_cuts (hfits : chart.Fits grammar front back)
    (h : Explored ends chart front back waiting table) {bound stop last : Nat} {later : List Nat}
    (hstop : stop = Text.size front ∨ stop ∈ table)
    (hbound : chart.left ≤ bound + (chart.seek stop).left)
    (hlater : Trail ends chart stop later last) :
    ∃ stops, Chart.cuts table (Text.size front) bound stop later = some stops ∧
      Trail ends chart (Text.size front) stops last := by
  induction bound generalizing stop later with
  | zero =>
    -- An end behind the start has less of the text ahead than the start.
    obtain rfl : stop = Text.size front := by
      refine Nat.le_antisymm (Nat.le_of_not_lt fun hlt => ?_) (h.visited_ahead hstop).le
      have hleft := h.left_seek_lt hfits (Or.inl rfl) hstop hlt
      rw [seek_of_le (Nat.le_of_eq hfits.offset_eq.symm)] at hleft
      omega
    unfold Chart.cuts
    rw [if_pos rfl]
    exact ⟨later, rfl, hlater⟩
  | succ bound ih =>
    unfold Chart.cuts
    split
    · rename_i heq
      exact ⟨later, rfl, heq ▸ hlater⟩
    · rename_i hne
      -- The place from which the end was reached has more of the text ahead.
      have hmem := hstop.resolve_left hne
      obtain ⟨previous, hprevious⟩ :=
        Option.isSome_iff_exists.1 (TreeMap.isSome_getElem?_iff_mem.2 hmem)
      obtain ⟨hvisited, hstep⟩ := h.record hprevious
      have hleft := h.left_seek_lt hfits hvisited (Or.inr hmem) hstep.lt
      simp only [hprevious]
      exact ih hvisited (by omega) (.cons hstep hlater)

end Explored

/-- A repetition is searched until nothing waits. -/
theorem explored_iterate (hfits : chart.Fits grammar front back)
    (hends : EndsAhead ends chart front back) :
    Explored ends chart front back [] (chart.iterate ends) := by
  refine (Explored.start hfits).explore hfits hends fun here hhere => ?_
  rw [List.mem_singleton.1 hhere]
  exact Nat.lt_succ_self _

end Retrace.Chart
