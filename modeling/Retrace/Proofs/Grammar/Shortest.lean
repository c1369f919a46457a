import Retrace.Proofs.Grammar.Recognition
import Mathlib.Order.Bounds.Basic
import Mathlib.Order.Lattice.Nat

/-!
# A repetition takes as few iterations as it can

`Chart.iterate` visits places layer by layer: first the start, then what one iteration reaches, then
what two iterations reach, and so on. A place is recorded when it is found for the first time, so
the record leads back to a place that is reached with one iteration less, and no way there is
shorter (`Chart.Layered`). Following the records back from an end therefore gives as few iterations
as possible, whatever other ways lead there, and the node that is built for a repetition has one
child for each of them (`Grammar.build_loop_of_compile`).

## Main definitions

* `Chart.counts`: the numbers of iterations that lead from one offset to another;
* `Chart.Layered`: the state of a search while a layer of places is visited.
-/

namespace Retrace

namespace Chart

open Std (TreeMap)

variable {grammar : Grammar} {ends : Chart → List Nat} {chart : Chart} {front back : Text}
  {start stop : Nat}

/-- The numbers of iterations, none of them empty, that lead from one offset to another. -/
def counts (ends : Chart → List Nat) (chart : Chart) (start stop : Nat) : Set Nat :=
  {count | ∃ stops, Trail ends chart start stops stop ∧ stops.length = count}

/-- One more iteration behind others. -/
theorem Trail.concat {middle : Nat} {stops : List Nat} (h : Trail ends chart start stops middle)
    (hstep : Step ends chart middle stop) : Trail ends chart start (stops ++ [stop]) stop := by
  induction h with
  | nil => exact .cons hstep (.nil stop)
  | cons hfirst _ ih => exact .cons hfirst (ih hstep)

/-- Without any iteration one stays where one is. -/
theorem zero_mem_counts_iff : 0 ∈ counts ends chart start stop ↔ stop = start := by
  constructor
  · rintro ⟨stops, htrail, hlength⟩
    obtain rfl := List.length_eq_zero_iff.1 hlength
    cases htrail
    rfl
  · rintro rfl
    exact ⟨[], .nil stop, rfl⟩

/-- Behind any number of iterations, one more leads on. -/
theorem succ_mem_counts_iff {count : Nat} :
    count + 1 ∈ counts ends chart start stop ↔
      ∃ previous, count ∈ counts ends chart start previous ∧ Step ends chart previous stop := by
  constructor
  · -- The induction is on the iterations from the start, while the last one is taken off.
    rintro ⟨stops, htrail, hlength⟩
    induction htrail generalizing count with
    | nil => cases hlength
    | @cons start middle stop later hfirst hlater ih =>
      cases count with
      | zero =>
        obtain rfl := List.length_eq_zero_iff.1 (Nat.succ.inj hlength)
        cases hlater
        exact ⟨start, zero_mem_counts_iff.2 rfl, hfirst⟩
      | succ count =>
        obtain ⟨previous, ⟨stops, htrail, rfl⟩, hstep⟩ := ih (Nat.succ.inj hlength)
        exact ⟨previous, ⟨middle :: stops, .cons hfirst htrail, rfl⟩, hstep⟩
  · rintro ⟨previous, ⟨stops, htrail, rfl⟩, hstep⟩
    exact ⟨stops ++ [stop], htrail.concat hstep, List.length_append⟩

/-- If an offset can be reached with some number of iterations, there is a least number. -/
theorem exists_isLeast_counts {count : Nat} (h : count ∈ counts ends chart start stop) :
    ∃ least ≤ count, IsLeast (counts ends chart start stop) least :=
  ⟨sInf (counts ends chart start stop), Nat.sInf_le h, Nat.sInf_mem ⟨count, h⟩,
    fun _ hother => Nat.sInf_le hother⟩

/-- The offset before a last iteration takes at most one iteration less. -/
theorem exists_step_of_isLeast_succ {count : Nat}
    (h : IsLeast (counts ends chart start stop) (count + 1)) :
    ∃ previous, IsLeast (counts ends chart start previous) count ∧
      Step ends chart previous stop := by
  obtain ⟨previous, hprevious, hstep⟩ := succ_mem_counts_iff.1 h.1
  refine ⟨previous, ⟨hprevious, fun other hother => ?_⟩, hstep⟩
  -- Were there a shorter way to the offset before, there would be one to the end.
  exact Nat.le_of_succ_le_succ (h.2 (succ_mem_counts_iff.2 ⟨previous, hother, hstep⟩))

/-- Every record leads back to an offset that takes one iteration less. -/
def Tight (ends : Chart → List Nat) (chart : Chart) (start : Nat) (table : TreeMap Nat Nat) :
    Prop :=
  ∀ stop previous, table[stop]? = some previous →
    ∃ count, IsLeast (counts ends chart start previous) count ∧
      IsLeast (counts ends chart start stop) (count + 1)

/-- The state of a search while the places are visited that take `depth` iterations. -/
structure Layered (ends : Chart → List Nat) (chart : Chart) (front back : Text) (depth : Nat)
    (frontier found : List Chart) (table : TreeMap Nat Nat) : Prop where
  /-- What is known of any search. -/
  explored : Explored ends chart front back (frontier ++ found) table
  /-- Every record leads back to an offset that takes one iteration less. -/
  tight : Tight ends chart (Text.size front) table
  /-- The places that are visited now take as many iterations as the layer is deep. -/
  near : ∀ {here}, here ∈ frontier → ∃ offset, (offset = Text.size front ∨ offset ∈ table) ∧
    here = chart.seek offset ∧ IsLeast (counts ends chart (Text.size front) offset) depth
  /-- The places that are found on the way take one more. -/
  far : ∀ {here}, here ∈ found → ∃ offset, (offset = Text.size front ∨ offset ∈ table) ∧
    here = chart.seek offset ∧ IsLeast (counts ends chart (Text.size front) offset) (depth + 1)
  /-- Whatever takes no more iterations than the layer is deep has been found before. -/
  complete : ∀ {offset count}, IsLeast (counts ends chart (Text.size front) offset) count →
    count ≤ depth → offset = Text.size front ∨ offset ∈ table

namespace Layered

variable {depth : Nat} {frontier found : List Chart} {table : TreeMap Nat Nat}

/-- At first there is nothing but the start. -/
theorem initial (hfits : chart.Fits grammar front back) :
    Layered ends chart front back 0 [chart] [] ∅ where
  explored := .start hfits
  tight stop previous hrecord := by
    rw [TreeMap.getElem?_emptyc] at hrecord
    cases hrecord
  near hmem := by
    refine ⟨_, Or.inl rfl, ?_, zero_mem_counts_iff.2 rfl, fun _ _ => Nat.zero_le _⟩
    rw [List.mem_singleton.1 hmem, seek_of_le (Nat.le_of_eq hfits.offset_eq.symm)]
  far := nofun
  complete hleast hle := by
    obtain rfl := Nat.le_zero.1 hle
    exact Or.inl (zero_mem_counts_iff.1 hleast.1)

/-- Visiting a place of the layer. -/
theorem visit (hfits : chart.Fits grammar front back) (hends : EndsAhead ends chart front back)
    {here : Chart} {others : List Chart} {before after : List Chart × TreeMap Nat Nat}
    (h : Layered ends chart front back depth (here :: others) before.1 before.2)
    (hreached : Reached here (ends here) before after) :
    Layered ends chart front back depth others after.1 after.2 := by
  obtain ⟨offset, hoffset, rfl, hleast⟩ := h.near List.mem_cons_self
  have hle := (h.explored.visited_ahead hoffset).le
  have hhere : (chart.seek offset).offset = offset := by
    obtain ⟨middle, rest, rfl, rfl⟩ := h.explored.visited_ahead hoffset
    exact hfits.seek.offset_eq
  have hmono {other : Nat} (hother : other = Text.size front ∨ other ∈ before.2) :
      other = Text.size front ∨ other ∈ after.2 :=
    hother.imp_right fun hmem => hreached.mem_iff.2 (Or.inl hmem)
  -- What takes fewer iterations has been found before, so what is found now takes one more.
  have hnew {stop : Nat} (hstop : stop ∈ ends (chart.seek offset)) (hlt : offset < stop)
      (hnot : stop ∉ before.2) :
      IsLeast (counts ends chart (Text.size front) stop) (depth + 1) := by
    refine ⟨succ_mem_counts_iff.2 ⟨offset, hleast.1, hlt, hstop⟩, fun count hcount => ?_⟩
    by_contra hless
    obtain ⟨least, hle', hleast'⟩ := exists_isLeast_counts hcount
    rcases h.complete hleast' (by omega) with rfl | hmem
    · exact absurd hlt (Nat.not_lt.2 hle)
    · exact hnot hmem
  refine ⟨h.explored.visit hfits hends hreached, fun stop previous hrecord => ?_,
    fun {here} hmem => ?_, fun {here} hmem => ?_, fun hother hdepth => ?_⟩
  · rcases hreached.record hrecord with hrecord | ⟨rfl, hstop, hlt, hnot⟩
    · exact h.tight stop previous hrecord
    · rw [hhere] at hlt ⊢
      exact ⟨depth, hleast, hnew hstop hlt hnot⟩
  · obtain ⟨other, hother, heq, hleast'⟩ := h.near (List.mem_cons_of_mem _ hmem)
    exact ⟨other, hmono hother, heq, hleast'⟩
  · rcases hreached.place hmem with hmem | ⟨stop, hstop, hlt, hnot, rfl⟩
    · obtain ⟨other, hother, heq, hleast'⟩ := h.far hmem
      exact ⟨other, hmono hother, heq, hleast'⟩
    · have hrecorded : stop ∈ after.2 := hreached.mem_iff.2 (Or.inr ⟨hstop, hlt⟩)
      rw [hhere] at hlt
      exact ⟨stop, Or.inr hrecorded, seek_seek (Nat.le_of_lt hlt), hnew hstop hlt hnot⟩
  · exact hmono (h.complete hother hdepth)

/-- Visiting all places of the layer. -/
theorem round (hfits : chart.Fits grammar front back) (hends : EndsAhead ends chart front back)
    (before : List Chart × TreeMap Nat Nat)
    (h : Layered ends chart front back depth frontier before.1 before.2) :
    let after := frontier.foldl (fun found here => (ends here).foldl (reach here) found) before
    Layered ends chart front back depth [] after.1 after.2 := by
  induction frontier generalizing before with
  | nil => exact h
  | cons here others ih => exact ih _ (h.visit hfits hends (Reached.foldl here (ends here) before))

/-- Once all places of a layer have been visited, those found on the way are the next layer. -/
theorem next (hfits : chart.Fits grammar front back)
    (h : Layered ends chart front back depth [] found table) :
    Layered ends chart front back (depth + 1) found.reverse [] table := by
  have hexplored := h.explored
  refine ⟨⟨hexplored.ahead, hexplored.record, fun hmem => ?_, fun hoffset hstep => ?_⟩, h.tight,
    fun hmem => h.far (List.mem_reverse.1 hmem), nofun, fun {offset count} hleast hle => ?_⟩
  · rw [List.append_nil, List.mem_reverse] at hmem
    exact hexplored.waits hmem
  · rw [List.append_nil, List.mem_reverse]
    exact hexplored.closed hoffset hstep
  · rcases Nat.lt_or_eq_of_le hle with hlt | rfl
    · exact h.complete hleast (Nat.le_of_lt_succ hlt)
    · -- The place before the last iteration belongs to the layer that has been visited.
      obtain ⟨previous, hprevious, hstep⟩ := exists_step_of_isLeast_succ hleast
      have hvisited := h.complete hprevious (Nat.le_refl _)
      refine (hexplored.closed hvisited hstep).elim (fun hwaits => ?_) Or.inr
      obtain ⟨other, hother, heq, hleast'⟩ := h.far hwaits
      -- Were it waiting, it would be a place of the next layer as well.
      have hoffset {place : Nat} (hplace : place = Text.size front ∨ place ∈ table) :
          (chart.seek place).offset = place := by
        obtain ⟨middle, rest, rfl, rfl⟩ := hexplored.visited_ahead hplace
        exact hfits.seek.offset_eq
      have hsame := congrArg Chart.offset heq
      rw [hoffset hvisited, hoffset hother] at hsame
      subst hsame
      exact absurd (hprevious.unique hleast') (Nat.ne_of_lt (Nat.lt_succ_self _))

/-- However many layers are visited, every record leads back to what takes one iteration less. -/
theorem tight_explore (hfits : chart.Fits grammar front back)
    (hends : EndsAhead ends chart front back) {rounds : Nat}
    (h : Layered ends chart front back depth frontier [] table) :
    Tight ends chart (Text.size front) (Chart.explore ends rounds frontier table) := by
  induction rounds generalizing depth frontier table with
  | zero => exact h.tight
  | succ rounds ih =>
    cases frontier with
    | nil => exact h.tight
    | cons here others => exact ih ((round hfits hends ([], table) h).next hfits)

end Layered

/-- The records of a repetition lead back to what takes one iteration less. -/
theorem tight_iterate (hfits : chart.Fits grammar front back)
    (hends : EndsAhead ends chart front back) :
    Tight ends chart (Text.size front) (chart.iterate ends) :=
  (Layered.initial hfits).tight_explore hfits hends

/-- Following such records back from an end takes as few iterations as lead there. -/
theorem Tight.length_cuts {table : TreeMap Nat Nat} (h : Tight ends chart start table)
    {bound count : Nat} {later stops : List Nat}
    (hcuts : Chart.cuts table start bound stop later = some stops)
    (hleast : IsLeast (counts ends chart start stop) count) :
    stops.length = count + later.length := by
  induction bound generalizing stop count later with
  | zero =>
    unfold Chart.cuts at hcuts
    split at hcuts
    · rename_i heq
      obtain rfl := Option.some.inj hcuts
      have hzero := hleast.2 (zero_mem_counts_iff.2 heq)
      omega
    · cases hcuts
  | succ bound ih =>
    unfold Chart.cuts at hcuts
    split at hcuts
    · rename_i heq
      obtain rfl := Option.some.inj hcuts
      have hzero := hleast.2 (zero_mem_counts_iff.2 heq)
      omega
    · split at hcuts
      · rename_i previous hbound hprevious
        cases hbound
        obtain ⟨before, hbefore, hstop⟩ := h _ _ hprevious
        -- Both are least for the end, so the offset before takes exactly one iteration less.
        obtain rfl := hleast.unique hstop
        rw [ih hcuts hbefore, List.length_cons]
        omega
      · cases hcuts

end Chart

namespace Grammar

namespace Compiled

variable {grammar : Grammar} {text front back : Text} {start stop label : Nat} {body : Production}

/-- What is recorded for a repetition leads back to what takes one iteration less. -/
theorem tight_loopEnds (h : grammar.Compiled) (hloop : grammar.Contains (.loop label body))
    (front back : Text) :
    Chart.Tight (fun here => body.ends grammar here)
      ((grammar.chart (front ++ back)).seek (Text.size front)) (Text.size front)
      (((grammar.chart (front ++ back)).seek (Text.size front)).loopEnds label) := by
  rw [h.loopEnds_seek hloop]
  exact Chart.tight_iterate (h.fits_seek front back) (h.endsAhead_seek body front back)

/-- The iterations that are followed back from an end are as few as lead there. -/
theorem length_cuts_le (h : grammar.Compiled) (hloop : grammar.Contains (.loop label body))
    (hstart : text.IsBoundary start) {bound : Nat} {stops others : List Nat}
    (hcuts : Chart.cuts (((grammar.chart text).seek start).loopEnds label) start bound stop [] =
      some stops)
    (hothers : Chart.Trail (fun here => body.ends grammar here) (grammar.chart text) start others
      stop) : stops.length ≤ others.length := by
  obtain ⟨front, back, rfl, rfl⟩ := Text.isBoundary_iff.1 hstart
  have htrail := (Chart.trail_seek_iff (Nat.le_refl _)).2 hothers
  obtain ⟨least, hle, hleast⟩ := Chart.exists_isLeast_counts ⟨others, htrail, rfl⟩
  have hlength := (h.tight_loopEnds hloop front back).length_cuts hcuts hleast
  rw [List.length_nil] at hlength
  omega

/-- Iterations that derive something are iterations on the chart, as many of them. -/
theorem exists_trail_of_laps (h : grammar.Compiled) (hbody : grammar.Contains body)
    (hstart : text.IsBoundary start) {children : List (Option ParseTree)}
    (hlaps : grammar.Laps text body start stop children) :
    ∃ stops, Chart.Trail (fun here => body.ends grammar here) (grammar.chart text) start stops
      stop ∧ stops.length = children.length := by
  induction hlaps with
  | nil start => exact ⟨[], .nil start, rfl⟩
  | @cons start middle stop _ _ hlt hfirst _ ih =>
    obtain ⟨stops, htrail, hlength⟩ := ih (hfirst.isBoundary hstart)
    have hmem := h.leads_of_yields hfirst hbody hstart
    exact ⟨middle :: stops, .cons ⟨hlt, hmem⟩ htrail, congrArg Nat.succ hlength⟩

/-- What is built for a repetition has one child for each iteration, with as few of them as can be.
-/
theorem build_loop (h : grammar.Compiled) (hloop : grammar.Contains (.loop label body))
    (hstart : text.IsBoundary start)
    (hstop : stop ∈ (Expr.loop label body).ends grammar ((grammar.chart text).seek start)) :
    ∃ children, (Expr.loop label body).build grammar ((grammar.chart text).seek start) stop =
        some [some (.node none children (coverSpan children start))] ∧
      grammar.Laps text body start stop children ∧
      ∀ others, grammar.Laps text body start stop others → children.length ≤ others.length := by
  have hbody : grammar.Contains body := hloop.child List.mem_cons_self
  obtain ⟨stops, hcuts, htrail⟩ := h.exists_cuts hloop hstart hstop
  obtain ⟨children, hchildren, hlaps, hlength⟩ := h.buildLoop_of_trail
    (fun hplace _ => h.isBuilt hbody hplace) hstart (Nat.le_refl _) htrail []
  refine ⟨children, ?_, hlaps, fun others hothers => ?_⟩
  · rw [Expr.build, h.offset_seek hstart, hcuts]
    simp only [hchildren]
    rfl
  · obtain ⟨stops', htrail', hlength'⟩ := h.exists_trail_of_laps hbody hstart hothers
    rw [hlength, ← hlength']
    exact h.length_cuts_le hloop hstart hcuts htrail'

/-- A repetition can end exactly where iterations of its body lead that read something. -/
theorem mem_ends_loop_iff (h : grammar.Compiled) (hloop : grammar.Contains (.loop label body))
    (hstart : text.IsBoundary start) :
    stop ∈ (Expr.loop label body).ends grammar ((grammar.chart text).seek start) ↔
      ∃ children, grammar.Laps text body start stop children := by
  constructor
  · intro hstop
    obtain ⟨children, -, hlaps, -⟩ := h.build_loop hloop hstart hstop
    exact ⟨children, hlaps⟩
  · rintro ⟨children, hlaps⟩
    exact h.leads_of_yields (.loop hlaps.yields) hloop hstart

end Compiled

/-- In a grammar that is compiled from a description, what a repetition builds between two offsets
that it can span is one node with a child for each iteration. The iterations derive the text between
the offsets, none of them is empty, and there are as few of them as there can be. -/
theorem build_loop_of_compile {description text : Text} {grammar : Grammar}
    (h : compile description = .ok grammar) {label start : Nat} {body : Production}
    (hloop : grammar.Contains (.loop label body)) (hstart : text.IsBoundary start) (stop : Nat) :
    (stop ∈ (Expr.loop label body).ends grammar ((grammar.chart text).seek start) ↔
      ∃ children, grammar.Laps text body start stop children) ∧
    (stop ∈ (Expr.loop label body).ends grammar ((grammar.chart text).seek start) →
      ∃ children, (Expr.loop label body).build grammar ((grammar.chart text).seek start) stop =
          some [some (.node none children (coverSpan children start))] ∧
        grammar.Laps text body start stop children ∧
        IsLeast {count | ∃ others, grammar.Laps text body start stop others ∧
          others.length = count} children.length) := by
  have hcompiled := compiled_of_compile h
  refine ⟨hcompiled.mem_ends_loop_iff hloop hstart, fun hstop => ?_⟩
  obtain ⟨children, hbuild, hlaps, hleast⟩ := hcompiled.build_loop hloop hstart hstop
  refine ⟨children, hbuild, hlaps, ⟨children, hlaps, rfl⟩, ?_⟩
  rintro _ ⟨others, hothers, rfl⟩
  exact hleast others hothers

/-- Any number of single or double dots. -/
def dots : Text := "s = \x7b \".\" | \".\" \".\" \x7d;".toList

/-- Three dots take two iterations. -/
theorem build_loop_dots :
    ∃ grammar label body children, compile dots = .ok grammar ∧
      grammar.Contains (.loop label body) ∧
      (Expr.loop label body).build grammar ((grammar.chart ['.', '.', '.']).seek 0) 3 =
        some [some (.node none children (coverSpan children 0))] ∧
      IsLeast {count | ∃ others, grammar.Laps ['.', '.', '.'] body 0 3 others ∧
        others.length = count} 2 := by
  have hbuilt : (compile dots).toOption.any (fun grammar =>
      (loops grammar.rules.toList).any fun found =>
        3 ∈ (Expr.loop found.1 found.2).ends grammar ((grammar.chart ['.', '.', '.']).seek 0) ∧
          ((Expr.loop found.1 found.2).build grammar
            ((grammar.chart ['.', '.', '.']).seek 0) 3).map
              (·.map (·.map (·.children.length))) = some [some 2]) = true := by
    decide +kernel
  obtain ⟨grammar, hgrammar, hloops⟩ := (Option.any_eq_true ..).1 hbuilt
  obtain ⟨⟨label, body⟩, hmem, hfound⟩ := List.any_eq_true.1 hloops
  obtain ⟨hstop, hcount⟩ := of_decide_eq_true hfound
  have hcompile := Except.toOption_eq_some.1 hgrammar
  obtain ⟨rule, hrule, hbody⟩ := List.mem_flatMap.1 hmem
  have hloop : grammar.Contains (.loop label body) := .part hrule (Expr.part_of_mem_loops hbody)
  obtain ⟨children, hbuild, -, hleast⟩ :=
    (build_loop_of_compile hcompile hloop (Text.isBoundary_zero _) 3).2 hstop
  rw [hbuild] at hcount
  have hlength : children.length = 2 := by simpa [ParseTree.children] using hcount
  rw [hlength] at hleast
  exact ⟨grammar, label, body, children, hcompile, hloop, hbuild, hleast⟩

end Grammar

end Retrace
