import Mathlib.Data.List.Find
import Retrace.Proofs.Grammar.Iterate
import Retrace.Proofs.Grammar.Plan

/-!
# Rows say what their expressions say

An entry of a row is computed when only some entries of the row are there. These are all it needs:
rows that agree on what an expression needs give the same ends and the same trees for it
(`Row.AgreeOn.ends_congr`, `Row.AgreeOn.build_congr`). So in a finished row every entry is what its
expression gives at that row (`Grammar.Compiled.filled`): looking a rule or a repetition up is the
same as evaluating it.

## Main definitions

* `Row.AgreeOn`: two rows say the same about some entries;
* `Row.Filled`: what a row says about an entry is what the expression of the entry gives.
-/

namespace Retrace

/-- Two rows of one place say the same about some rules and repetitions. -/
structure Row.AgreeOn (keys : List Entry.Key) (row row' : Row) : Prop where
  /-- The rows are about the same place. -/
  cursor_eq : row'.cursor = row.cursor
  /-- They say the same about these rules. -/
  rule : ∀ {index}, .rule index ∈ keys → row'.rules.lookup index = row.rules.lookup index
  /-- They say the same about these repetitions. -/
  loop : ∀ {label}, .loop label ∈ keys → row'.loops.lookup label = row.loops.lookup label

namespace Row.AgreeOn

open Chart

variable {grammar : Grammar} {keys : List Entry.Key} {row row' : Row} {later : Chart}
  {front back : Text}

theorem offset_eq (h : row.AgreeOn keys row') :
    Chart.offset (row' :: later) = Chart.offset (row :: later) := by
  rw [Chart.offset, Chart.offset, h.cursor_eq]

/-- Places further ahead are the same. -/
theorem seek_eq (h : row.AgreeOn keys row') {stop : Nat}
    (hlt : Chart.offset (row :: later) < stop) :
    Chart.seek (row' :: later) stop = Chart.seek (row :: later) stop := by
  have hrow : row.cursor.offset < stop := hlt
  rw [Chart.seek, Chart.seek, List.dropWhile_cons_of_pos (by simpa [h.cursor_eq] using hrow),
    List.dropWhile_cons_of_pos (by simpa using hrow)]

theorem spread_congr (h : row.AgreeOn keys row') {ends : Chart → List Nat} {reached : List Nat}
    (hends : Chart.offset (row :: later) ∈ reached → ends (row' :: later) = ends (row :: later))
    (hreached : ∀ offset ∈ reached, Chart.offset (row :: later) ≤ offset) :
    Chart.spread ends (row' :: later) reached = Chart.spread ends (row :: later) reached := by
  induction reached with
  | nil => rfl
  | cons offset others ih =>
    rw [spread, spread]
    rcases Nat.lt_or_eq_of_le (hreached offset List.mem_cons_self) with hlt | heq
    · rw [h.seek_eq hlt]
    · rw [seek_of_le (Nat.le_of_eq heq.symm),
        seek_of_le (Nat.le_of_eq (heq.symm.trans h.offset_eq.symm)),
        hends (heq ▸ List.mem_cons_self), ih (fun hmem => hends (List.mem_cons_of_mem _ hmem))
          fun other hother => hreached other (List.mem_cons_of_mem _ hother)]

/-- Taking an offset into account does not depend on what rows say. -/
theorem reach_congr (h : row.AgreeOn keys row') :
    reach (row' :: later) = reach (row :: later) := by
  funext found stop
  rw [reach, reach, h.offset_eq]
  split
  · rfl
  · rename_i hnew
    rw [h.seek_eq (Nat.not_le.1 fun hle => hnew (Or.inl hle))]

/-- A search depends on the first row only through what is iterated. -/
theorem iterate_congr (h : row.AgreeOn keys row') {ends : Chart → List Nat}
    (hends : ends (row' :: later) = ends (row :: later)) :
    Chart.iterate ends (row' :: later) = Chart.iterate ends (row :: later) := by
  have hleft : Chart.left (row' :: later) = Chart.left (row :: later) := by
    rw [left, left, h.cursor_eq]
  rw [iterate, iterate, explore, explore, hleft]
  simp only [List.foldl_cons, List.foldl_nil, hends, h.reach_congr]

theorem endsSeq_congr (hfits : Chart.Fits grammar front back (row :: later))
    (h : row.AgreeOn keys row') {items : List Production}
    (hitems : ∀ item ∈ items, item.needs (LeftRecursion.isNullableRule grammar.bodies) ⊆ keys →
      item.ends grammar (row' :: later) = item.ends grammar (row :: later))
    {mayBeEmpty : Prop} {reached : List Nat} (hreached : Ends.Fit front back mayBeEmpty reached)
    (hneeds : Text.size front ∈ reached →
      Expr.needsSeq (LeftRecursion.isNullableRule grammar.bodies) items ⊆ keys) :
    Expr.endsSeq grammar items (row' :: later) reached =
      Expr.endsSeq grammar items (row :: later) reached := by
  induction items generalizing mayBeEmpty reached with
  | nil => rfl
  | cons item items ih =>
    -- Only where a place reached is the first one do the rows matter.
    have hspread : Chart.spread (fun here => item.ends grammar here) (row' :: later) reached =
        Chart.spread (fun here => item.ends grammar here) (row :: later) reached := by
      refine h.spread_congr (fun hmem => hitems item List.mem_cons_self ?_) fun offset hoffset => ?_
      · rw [hfits.offset_eq] at hmem
        exact (List.append_subset.1 (hneeds hmem)).1
      · rw [hfits.offset_eq]
        exact (hreached.ahead hoffset).le
    rw [Expr.endsSeq, Expr.endsSeq, hspread]
    have hfirst := Fits.spread (fun hback => (Fits.seek (hback ▸ hfits)).ends item)
      (⟨hreached.ascending, hreached.ahead, id⟩ : Ends.Fit front back (Text.size front ∈ reached) _)
    refine ih (fun other hother => hitems other (List.mem_cons_of_mem _ hother)) hfirst ?_
    -- The others start at the first place only if the first item is nullable.
    intro hmem
    obtain ⟨hnullable, hstart⟩ := hfirst.mayBeEmpty hmem
    have hneeded := hneeds hstart
    rw [Expr.needsSeq, if_pos (LeftRecursion.isNullable_iff.2 hnullable)] at hneeded
    exact (List.append_subset.1 hneeded).2

/-- Rows that agree on what an expression needs give the same ends for it. -/
theorem ends_congr (hfits : Chart.Fits grammar front back (row :: later))
    (h : row.AgreeOn keys row') {expr : Production}
    (hneeds : expr.needs (LeftRecursion.isNullableRule grammar.bodies) ⊆ keys) :
    expr.ends grammar (row' :: later) = expr.ends grammar (row :: later) := by
  -- A row is only asked for its cursor, for the ends of rules and for those of repetitions.
  induction expr using Expr.ind with
  | literal word =>
    simp only [Expr.ends, terminalEnds, terminal?, h.cursor_eq]
  | call target =>
    cases target with
    | token index => simp only [Expr.ends, terminalEnds, terminal?, h.cursor_eq]
    | rule index =>
      have hlookup := h.rule (hneeds List.mem_cons_self)
      simp only [Expr.ends, ruleEnds, hlookup]
  | seq items ih =>
    rw [Expr.ends, Expr.ends, h.offset_eq, hfits.offset_eq]
    exact h.endsSeq_congr hfits ih (.start front back) fun _ => hneeds
  | either branches ih =>
    rw [Expr.needs, Expr.needsEither_eq] at hneeds
    rw [Expr.ends, Expr.ends]
    induction branches with
    | nil => rfl
    | cons branch branches ihbranches =>
      rw [List.flatMap_cons] at hneeds
      obtain ⟨hbranch, hothers⟩ := List.append_subset.1 hneeds
      rw [Expr.endsEither, Expr.endsEither, ih branch List.mem_cons_self hbranch,
        ihbranches (fun other hother => ih other (List.mem_cons_of_mem _ hother)) hothers]
  | optional body ih =>
    rw [Expr.ends, Expr.ends, h.offset_eq, ih hneeds]
  | loop label body =>
    have hlookup := h.loop (hneeds List.mem_cons_self)
    rw [Expr.ends, Expr.ends, h.offset_eq]
    simp only [loopEnds, hlookup]

theorem buildSeq_congr (hfits : Chart.Fits grammar front back (row :: later))
    (h : row.AgreeOn keys row') {items : List Production}
    (hitems : ∀ item ∈ items, item.needs (LeftRecursion.isNullableRule grammar.bodies) ⊆ keys →
      ∀ stop, item.build grammar (row' :: later) stop = item.build grammar (row :: later) stop)
    (hneeds : Expr.needsSeq (LeftRecursion.isNullableRule grammar.bodies) items ⊆ keys)
    (stop : Nat) :
    Expr.buildSeq grammar items (row' :: later) stop =
      Expr.buildSeq grammar items (row :: later) stop := by
  induction items generalizing stop with
  | nil =>
    rw [Expr.buildSeq, Expr.buildSeq, h.offset_eq]
  | cons item items ih =>
    rw [Expr.needsSeq] at hneeds
    obtain ⟨hitem, hothers⟩ := List.append_subset.1 hneeds
    have hends := h.ends_congr hfits hitem
    have hfit := hfits.ends item
    -- Where the first item ends the charts are the same, unless it ends where it starts.
    have hmiddle {middle : Nat} (hmem : middle ∈ item.ends grammar (row :: later)) :
        Chart.seek (row' :: later) middle = Chart.seek (row :: later) middle ∨
          Chart.seek (row' :: later) middle = row' :: later ∧
          Chart.seek (row :: later) middle = row :: later ∧ middle = Text.size front ∧
          Expr.needsSeq (LeftRecursion.isNullableRule grammar.bodies) items ⊆ keys := by
      have hoffset := hfits.offset_eq
      rcases Nat.lt_or_eq_of_le (hfit.ahead hmem).le with hlt | rfl
      · exact Or.inl (h.seek_eq (hoffset ▸ hlt))
      · have hnullable := LeftRecursion.isNullable_iff.2 (hfit.mayBeEmpty hmem)
        rw [if_pos hnullable] at hothers
        rw [seek_of_le (Nat.le_of_eq (hoffset.symm.trans h.offset_eq.symm)),
          seek_of_le (Nat.le_of_eq hoffset.symm)]
        exact Or.inr ⟨rfl, rfl, rfl, hothers⟩
    -- So the same middles are found, and from each of them the same trees are built.
    have hrest {middle : Nat} (hmem : middle ∈ item.ends grammar (row :: later)) :
        Expr.endsSeq grammar items (Chart.seek (row' :: later) middle) [middle] =
          Expr.endsSeq grammar items (Chart.seek (row :: later) middle) [middle] := by
      rcases hmiddle hmem with heq | ⟨hseek, hseek', rfl, hothers⟩
      · rw [heq]
      · rw [hseek, hseek']
        exact h.endsSeq_congr hfits (fun _ _ => h.ends_congr hfits) (.start front back)
          fun _ => hothers
    have hbuild {middle : Nat} (hmem : middle ∈ item.ends grammar (row :: later)) :
        Expr.buildSeq grammar items (Chart.seek (row' :: later) middle) stop =
          Expr.buildSeq grammar items (Chart.seek (row :: later) middle) stop := by
      rcases hmiddle hmem with heq | ⟨hseek, hseek', -, hothers⟩
      · rw [heq]
      · rw [hseek, hseek']
        exact ih (fun other hother => hitems other (List.mem_cons_of_mem _ hother)) hothers stop
    rw [Expr.buildSeq, Expr.buildSeq]
    rw [hends, List.find?_congr fun middle hmem => by rw [hrest (List.mem_reverse.1 hmem)]]
    split
    · rename_i middle hfound
      rw [hitems item List.mem_cons_self hitem middle,
        hbuild (List.mem_reverse.1 (List.mem_of_find?_eq_some hfound))]
    · rfl

/-- The iterations that lead to an end all end at recorded places. -/
theorem mem_of_mem_cuts {table : Std.TreeMap Nat Nat} {start bound stop other : Nat}
    {later stops : List Nat} (h : cuts table start bound stop later = some stops)
    (hother : other ∈ stops) : other ∈ later ∨ other ∈ table := by
  induction bound generalizing stop later with
  | zero =>
    unfold cuts at h
    split at h
    · obtain rfl := Option.some.inj h
      exact Or.inl hother
    · cases h
  | succ bound ih =>
    unfold cuts at h
    split at h
    · obtain rfl := Option.some.inj h
      exact Or.inl hother
    · cases hrecord : table[stop]? with
      | none => simp [hrecord] at h
      | some earlier =>
        simp only [hrecord] at h
        rcases ih h with hmem | hmem
        · -- The end that is put in front of the others has a record.
          rcases List.mem_cons.1 hmem with rfl | hmem
          · exact Or.inr (Std.TreeMap.isSome_getElem?_iff_mem.1 (by rw [hrecord]; rfl))
          · exact Or.inl hmem
        · exact Or.inr hmem

/-- Rows that agree on what an expression needs, and on what the repetitions in it need, give the
same trees for it. -/
theorem build_congr (hfits : Chart.Fits grammar front back (row :: later))
    (h : row.AgreeOn keys row') {expr : Production}
    (hloops : ∀ {label body}, (label, body) ∈ expr.loops → .loop label ∈ keys →
      body.needs (LeftRecursion.isNullableRule grammar.bodies) ⊆ keys)
    (hneeds : expr.needs (LeftRecursion.isNullableRule grammar.bodies) ⊆ keys) (stop : Nat) :
    expr.build grammar (row' :: later) stop = expr.build grammar (row :: later) stop := by
  induction expr using Expr.ind generalizing stop with
  | literal word => simp only [Expr.build, terminal?, h.cursor_eq]
  | call target =>
    cases target with
    | token index => simp only [Expr.build, terminal?, h.cursor_eq]
    | rule index =>
      have hlookup := h.rule (hneeds List.mem_cons_self)
      simp only [Expr.build, ruleTree, hlookup]
  | seq items ih =>
    rw [Expr.build, Expr.build]
    refine h.buildSeq_congr hfits (fun item hitem hneeded stop => ?_) hneeds stop
    exact ih item hitem (fun hmem => hloops (Expr.loops_subset_of_mem_children hitem hmem))
      hneeded stop
  | either branches ih =>
    rw [Expr.needs, Expr.needsEither_eq] at hneeds
    rw [Expr.loops, Expr.loopsAll_eq] at hloops
    rw [Expr.build, Expr.build]
    induction branches with
    | nil => rfl
    | cons branch branches ihbranches =>
      rw [List.flatMap_cons] at hneeds hloops
      obtain ⟨hbranch, hothers⟩ := List.append_subset.1 hneeds
      rw [Expr.buildEither, Expr.buildEither, h.ends_congr hfits hbranch,
        ih branch List.mem_cons_self (fun hmem => hloops (List.mem_append_left _ hmem)) hbranch,
        ihbranches (fun other hother => ih other (List.mem_cons_of_mem _ hother))
          (fun hmem => hloops (List.mem_append_right _ hmem)) hothers]
  | optional body ih =>
    have hbody : body.needs (LeftRecursion.isNullableRule grammar.bodies) ⊆ keys := hneeds
    rw [Expr.build, Expr.build, h.ends_congr hfits hbody, h.offset_eq, ih hloops hbody]
  | loop label body ih =>
    have hlabel : .loop label ∈ keys := hneeds List.mem_cons_self
    -- A repetition needs only its own label; what its body needs was done before it.
    have hbody : body.needs (LeftRecursion.isNullableRule grammar.bodies) ⊆ keys := by
      refine hloops ?_ hlabel
      rw [Expr.loops]
      exact List.mem_append_right _ List.mem_cons_self
    have hsubset : body.loops ⊆ (Expr.loop label body).loops :=
      Expr.loops_subset_of_mem_children List.mem_cons_self
    have hfirst := ih (fun hmem => hloops (hsubset hmem)) hbody
    have htable : Chart.loopEnds (row' :: later) label = Chart.loopEnds (row :: later) label := by
      simp only [loopEnds, h.loop hlabel]
    have hleft : Chart.left (row' :: later) = Chart.left (row :: later) := by
      rw [left, left, h.cursor_eq]
    rw [Expr.build, Expr.build, htable, h.offset_eq, hleft]
    split
    · rename_i stops hcuts
      congr 1
      cases stops with
      | nil => rfl
      | cons first stops =>
        -- The first iteration reads something, so the next ones start further ahead.
        have hmem := (mem_of_mem_cuts hcuts List.mem_cons_self).resolve_left List.not_mem_nil
        have hlt := hfits.lt_of_mem_loopEnds hmem
        rw [Expr.buildLoop, Expr.buildLoop, hfirst, h.seek_eq hlt, h.offset_eq]
    · rfl

end Row.AgreeOn

namespace Row

open Chart

variable {grammar : Grammar} {keys done : List Entry.Key} {row : Row} {later : Chart}
  {front back : Text} {entry : Entry} {entries : List Entry}

/-- A row in which an entry is what its expression gives at the row. -/
def Filled (grammar : Grammar) (later : Chart) (row : Row) : Entry → Prop
  | .loop label body => ∃ table, row.loops.lookup label = some table ∧
      table.get = Chart.iterate (fun here => body.ends grammar here) (row :: later)
  | .rule index name body => ∃ cell, row.rules.lookup index = some cell ∧
      cell.ends.get = body.ends grammar (row :: later) ∧ ∀ stop, cell.tree stop =
        if (body.ends grammar (row :: later)).contains stop then
          (body.build grammar (row :: later) stop).map fun children =>
            ParseTree.node (some name) children (coverSpan children row.cursor.offset)
        else none

private theorem lookup_cons_of_ne {Value : Type} {key other : Nat} {value : Value}
    {pairs : List (Nat × Value)} (h : key ≠ other) :
    List.lookup key ((other, value) :: pairs) = List.lookup key pairs := by
  rw [List.lookup_cons, beq_eq_false_iff_ne.2 h]

/-- Filling in an entry changes nothing else. -/
theorem agreeOn_fill (h : entry.key ∉ keys) : row.AgreeOn keys (fill grammar later row entry) := by
  refine ⟨cursor_fill .., fun {index} hmem => ?_, fun {label} hmem => ?_⟩
  · cases entry with
    | loop label body => rfl
    | rule index' name body =>
      have hne : index ≠ index' := by
        rintro rfl
        exact h hmem
      rw [fill, lookup_cons_of_ne hne]
  · cases entry with
    | loop label' body =>
      have hne : label ≠ label' := by
        rintro rfl
        exact h hmem
      rw [fill, lookup_cons_of_ne hne]
    | rule index name body => rfl

/-- Filling in entries changes nothing else. -/
theorem agreeOn_foldl_fill (h : ∀ key ∈ keys, key ∉ entries.map Entry.key) :
    row.AgreeOn keys (entries.foldl (fill grammar later) row) := by
  induction entries generalizing row with
  | nil => exact ⟨rfl, fun _ => rfl, fun _ => rfl⟩
  | cons entry entries ih =>
    have hentry : entry.key ∉ keys := fun hmem => h _ hmem (by simp)
    have hfirst : row.AgreeOn keys (fill grammar later row entry) := agreeOn_fill hentry
    have hothers : (fill grammar later row entry).AgreeOn keys
        ((entry :: entries).foldl (fill grammar later) row) :=
      ih fun key hkey hmem => h key hkey (List.mem_cons_of_mem _ hmem)
    exact ⟨hothers.cursor_eq.trans hfirst.cursor_eq,
      fun hmem => (hothers.rule hmem).trans (hfirst.rule hmem),
      fun hmem => (hothers.loop hmem).trans (hfirst.loop hmem)⟩

/-- What an expression iterates to fits, and every end lies behind the start. -/
theorem fit_iterate (hfits : Chart.Fits grammar front back (row :: later)) (body : Production) :
    Ends.Fit front back False
      (Chart.iterate (fun here => body.ends grammar here) (row :: later)).keys := by
  have hexplored : Explored (fun here => body.ends grammar here) (row :: later) front back [] _ :=
    explored_iterate hfits fun hback => ((Fits.seek (hback ▸ hfits)).ends body).ahead
  refine ⟨Std.TreeMap.ordered_keys.imp Nat.compare_eq_lt.1, fun hmem => ?_, fun hmem => ?_⟩
  · exact hexplored.ahead (Std.TreeMap.mem_keys.1 hmem)
  · have hrecorded := Std.TreeMap.mem_keys.1 hmem
    obtain ⟨previous, hprevious⟩ :=
      Option.isSome_iff_exists.1 (Std.TreeMap.isSome_getElem?_iff_mem.2 hrecorded)
    obtain ⟨hvisited, hstep⟩ := hexplored.record hprevious
    exact Nat.not_le_of_lt hstep.lt (hexplored.visited_ahead hvisited).le

/-- What is filled in fits, as the expression of the entry fits. -/
theorem row_fits_fill (hentry : entry ∈ Plan.entries grammar.rules.toList)
    (hfits : Chart.Fits grammar front back (row :: later)) (hrow : row.Fits grammar front back) :
    (fill grammar later row entry).Fits grammar front back := by
  refine ⟨(cursor_fill ..).trans hrow.cursor_eq, fun {index cell} hcell => ?_,
    fun {label table} htable => ?_⟩
  · cases entry with
    | loop label body => exact hrow.rule hcell
    | rule index' name body =>
      by_cases heq : index = index'
      · subst heq
        rw [fill, List.lookup_cons_self] at hcell
        obtain rfl := Option.some.inj hcell
        -- The cell of a rule is nullable only if its body is.
        refine (hfits.ends body).mono fun hnullable => ?_
        rcases Plan.mem_entries.1 hentry with ⟨_, rule, hrule, heq⟩ | ⟨_, _, _, heq⟩
        · cases heq
          refine .rule ?_ hnullable
          rw [Grammar.bodies, List.getElem?_map, hrule]
          rfl
        · cases heq
      · rw [fill, lookup_cons_of_ne heq] at hcell
        exact hrow.rule hcell
  · cases entry with
    | loop label' body =>
      by_cases heq : label = label'
      · subst heq
        rw [fill, List.lookup_cons_self] at htable
        obtain rfl := Option.some.inj htable
        exact fit_iterate hfits body
      · rw [fill, lookup_cons_of_ne heq] at htable
        exact hrow.loop htable
    | rule index name body => exact hrow.loop htable

/-- A chart that fits still does when an entry is filled in at its first row. -/
theorem fits_fill (hentry : entry ∈ Plan.entries grammar.rules.toList)
    (hfits : Chart.Fits grammar front back (row :: later)) :
    Chart.Fits grammar front back (fill grammar later row entry :: later) := by
  cases hfits with
  | last hrow => exact .last (row_fits_fill hentry (.last hrow) hrow)
  | row hrow hlater => exact .row (row_fits_fill hentry (.row hrow hlater) hrow) hlater

/-- What is filled in at a row holds at every later one that agrees on what was needed. -/
theorem filled_of_agreeOn {row' : Row} (hfits : Chart.Fits grammar front back (row :: later))
    (hagree : row.AgreeOn done row')
    (hself : (fill grammar later row entry).AgreeOn [entry.key] row')
    (hneeds : entry.needs grammar.rules.toList ⊆ done)
    (hloops : ∀ {label body}, (label, body) ∈ entry.body.loops → .loop label ∈ done →
      body.needs (LeftRecursion.isNullableRule grammar.bodies) ⊆ done) :
    row'.Filled grammar later entry := by
  cases entry with
  | loop label body =>
    refine ⟨_, (hself.loop List.mem_cons_self).trans List.lookup_cons_self, ?_⟩
    exact (hagree.iterate_congr (hagree.ends_congr hfits hneeds)).symm
  | rule index name body =>
    have hends : body.ends grammar (row' :: later) = body.ends grammar (row :: later) :=
      hagree.ends_congr hfits hneeds
    refine ⟨_, (hself.rule List.mem_cons_self).trans List.lookup_cons_self, hends.symm,
      fun stop => ?_⟩
    have hbuild :
        body.build grammar (row' :: later) stop = body.build grammar (row :: later) stop :=
      hagree.build_congr hfits hloops hneeds stop
    rw [hends, hbuild, hagree.cursor_eq]
    rfl

/-- Entries that are filled in one after the other, each behind what it needs, are what their
expressions give at the finished row. -/
theorem fits_and_filled_foldl (h : grammar.Compiled)
    (hordered : Plan.Ordered grammar.rules.toList done entries)
    (hentries : ∀ entry ∈ entries, entry ∈ Plan.entries grammar.rules.toList)
    (hnodup : (entries.map Entry.key).Nodup) (hdone : ∀ key ∈ done, key ∉ entries.map Entry.key)
    (hclosed : ∀ {label body}, (label, body) ∈ Grammar.loops grammar.rules.toList →
      Entry.Key.loop label ∈ done → body.needs (LeftRecursion.isNullableRule grammar.bodies) ⊆ done)
    (hfits : Chart.Fits grammar front back (row :: later)) :
    Chart.Fits grammar front back (entries.foldl (fill grammar later) row :: later) ∧
      ∀ entry ∈ entries, (entries.foldl (fill grammar later) row).Filled grammar later entry := by
  induction entries generalizing done row with
  | nil => exact ⟨hfits, fun _ h => (List.not_mem_nil h).elim⟩
  | cons entry entries ih =>
    obtain ⟨hneeds, hordered⟩ := hordered
    obtain ⟨hnew, hnodup⟩ := List.nodup_cons.1 hnodup
    have hentry := hentries entry List.mem_cons_self
    -- The repetitions that are done, with this entry, still have what their bodies need.
    have hcloses {label : Nat} {body : Production}
        (hbody : (label, body) ∈ Grammar.loops grammar.rules.toList)
        (hlabel : .loop label ∈ entry.key :: done) :
        body.needs (LeftRecursion.isNullableRule grammar.bodies) ⊆ entry.key :: done := by
      rcases List.mem_cons.1 hlabel with heq | hlabel
      · obtain rfl := h.eq_of_key_eq_loop hentry heq.symm hbody
        exact List.Subset.trans hneeds (List.subset_cons_self ..)
      · exact List.Subset.trans (hclosed hbody hlabel) (List.subset_cons_self ..)
    have hdone' : ∀ key ∈ entry.key :: done, key ∉ entries.map Entry.key := by
      intro key hkey hmem
      rcases List.mem_cons.1 hkey with rfl | hkey
      · exact hnew hmem
      · exact hdone key hkey (List.mem_cons_of_mem _ hmem)
    obtain ⟨hfinal, hothers⟩ := ih hordered
      (fun other hother => hentries other (List.mem_cons_of_mem _ hother)) hnodup hdone' hcloses
      (fits_fill hentry hfits)
    refine ⟨hfinal, fun other hother => ?_⟩
    rcases List.mem_cons.1 hother with rfl | hother
    · -- Nothing that was needed, nor the entry itself, changes afterwards.
      refine filled_of_agreeOn hfits (agreeOn_foldl_fill hdone) ?_ hneeds fun hmem =>
        hclosed (Plan.loops_subset_of_mem_entries hentry hmem)
      rw [List.foldl_cons]
      refine agreeOn_foldl_fill fun key hkey => ?_
      rw [List.mem_singleton.1 hkey]
      exact hnew
    · exact hothers other hother

end Row

namespace Grammar.Compiled

variable {grammar : Grammar}

/-- In a finished row the entries of the plan are what their expressions give. -/
theorem fits_and_filled_ofCursor (h : grammar.Compiled) {front back : Text} {later : Chart}
    (hstart : Chart.Fits grammar front back (⟨.behind front back, [], []⟩ :: later)) :
    Chart.Fits grammar front back (Row.ofCursor grammar (.behind front back) later :: later) ∧
      ∀ entry ∈ grammar.plan,
        (Row.ofCursor grammar (.behind front back) later).Filled grammar later entry :=
  Row.fits_and_filled_foldl h h.ordered_plan (fun _ hentry => h.mem_plan.1 hentry)
    h.nodup_keys_plan (fun _ hkey => (List.not_mem_nil hkey).elim)
    (fun _ hlabel => (List.not_mem_nil hlabel).elim) hstart

/-- A row about which nothing is known yet fits. -/
theorem fits_start (front back : Text) : Row.Fits grammar front back ⟨.behind front back, [], []⟩ :=
  ⟨rfl, nofun, nofun⟩

/-- The chart behind a leading part fits. -/
theorem fits (h : grammar.Compiled) (front back : Text) :
    (grammar.chartBehind front back).Fits grammar front back := by
  induction back generalizing front with
  | nil => exact (h.fits_and_filled_ofCursor (.last (fits_start front []))).1
  | cons c rest ih => exact (h.fits_and_filled_ofCursor (.row (fits_start _ _) (ih _))).1

/-- The first row of the chart behind a leading part is finished. -/
theorem filled (h : grammar.Compiled) (front back : Text) {entry : Entry}
    (hentry : entry ∈ Plan.entries grammar.rules.toList) :
    (Row.ofCursor grammar (.behind front back) (grammar.ahead front back)).Filled grammar
      (grammar.ahead front back) entry := by
  have hplan := h.mem_plan.2 hentry
  cases back with
  | nil => exact (h.fits_and_filled_ofCursor (.last (fits_start front []))).2 entry hplan
  | cons c rest =>
    exact (h.fits_and_filled_ofCursor (.row (fits_start _ _) (h.fits _ rest))).2 entry hplan

section Cells

variable {front back : Text}

/-- Where a rule can end is where its body can. -/
theorem ruleEnds_eq (h : grammar.Compiled) {index : Nat} {rule : Rule}
    (hrule : grammar.rules[index]? = some rule) :
    (grammar.chartBehind front back).ruleEnds index =
      rule.body.ends grammar (grammar.chartBehind front back) := by
  rw [← Array.getElem?_toList] at hrule
  obtain ⟨cell, hcell, hends, -⟩ :=
    h.filled front back (Plan.mem_entries.2 (Or.inl ⟨index, rule, hrule, rfl⟩))
  rw [chartBehind_eq, Chart.ruleEnds, hcell]
  exact hends

/-- The tree of a rule is what its body builds, wherever the body can end. -/
theorem ruleTree_eq (h : grammar.Compiled) {index : Nat} {rule : Rule}
    (hrule : grammar.rules[index]? = some rule) (stop : Nat) :
    (grammar.chartBehind front back).ruleTree index stop =
      if stop ∈ rule.body.ends grammar (grammar.chartBehind front back) then
        (rule.body.build grammar (grammar.chartBehind front back) stop).map fun children =>
          .node (some rule.name) children (coverSpan children (Text.size front))
      else none := by
  rw [← Array.getElem?_toList] at hrule
  obtain ⟨cell, hcell, -, htree⟩ :=
    h.filled front back (Plan.mem_entries.2 (Or.inl ⟨index, rule, hrule, rfl⟩))
  rw [chartBehind_eq, Chart.ruleTree, hcell]
  simp only [htree, List.contains_iff_mem, Row.cursor_ofCursor]
  rfl

/-- What is recorded for a repetition is what its body iterates to. -/
theorem loopEnds_eq (h : grammar.Compiled) {label : Nat} {body : Production}
    (hbody : (label, body) ∈ loops grammar.rules.toList) :
    (grammar.chartBehind front back).loopEnds label =
      Chart.iterate (fun here => body.ends grammar here) (grammar.chartBehind front back) := by
  obtain ⟨table, htable, hget⟩ :=
    h.filled front back (Plan.mem_entries.2 (Or.inr ⟨label, body, hbody, rfl⟩))
  rw [chartBehind_eq, Chart.loopEnds, htable]
  exact hget

end Cells

end Grammar.Compiled

end Retrace
