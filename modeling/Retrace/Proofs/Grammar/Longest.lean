import Retrace.Proofs.Grammar.Recognition
import Retrace.Proofs.Grammar.Tree

/-!
# The longest match at a place

Of all derivations of the top rule that start at a place, the search takes one that no other exceeds
and returns the tree that is built for where it ends. It finds nothing exactly if none of them reads
anything: the last of the ends that are known is the greatest, it can always be built, and what
reads something has leaves.

## Main definitions

* `Grammar.Longest`: a match that no other one from the same place exceeds;
* `Grammar.ReadsNothing`: no derivation from a place reads anything.

## Main results

* `Grammar.Compiled.longest?_eq_some_iff`, `Grammar.Compiled.longest?_eq_none_iff`: what is found at
  a place, in terms of derivations.
-/

namespace Retrace

/-- The last offset of an ascending list is the greatest one. -/
theorem Ends.getLast?_eq_some_iff {offsets : List Nat} (h : offsets.Pairwise (· < ·))
    {offset : Nat} :
    offsets.getLast? = some offset ↔ offset ∈ offsets ∧ ∀ other ∈ offsets, other ≤ offset := by
  constructor
  · intro hlast
    refine ⟨List.mem_of_getLast? hlast, fun other hother => ?_⟩
    obtain ⟨others, rfl⟩ := List.getLast?_eq_some_iff.1 hlast
    rcases List.mem_append.1 hother with hother | hother
    · exact Nat.le_of_lt ((List.pairwise_append.1 h).2.2 other hother offset (by simp))
    · exact Nat.le_of_eq (List.mem_singleton.1 hother)
  · rintro ⟨hmem, hgreatest⟩
    obtain ⟨less, greater, rfl⟩ := List.append_of_mem hmem
    cases greater with
    | nil => exact List.getLast?_concat ..
    | cons other others =>
      have hlt := (List.pairwise_cons.1 (List.pairwise_append.1 h).2.1).1 other (by simp)
      exact absurd (hgreatest other (by simp)) (Nat.not_le_of_lt hlt)

/-- The longest match at the first place of a chart is the tree for the last end, if it reads
something and has leaves. -/
theorem Chart.longest?_eq_some_iff {chart : Chart} {tree : ParseTree} {stop : Nat} :
    chart.longest? = some (tree, stop) ↔ (chart.ruleEnds 0).getLast? = some stop ∧
      chart.offset < stop ∧ chart.ruleTree 0 stop = some tree ∧ tree.leaves ≠ [] := by
  unfold longest?
  cases hlast : (chart.ruleEnds 0).getLast? with
  | none => simp
  | some last => cases htree : chart.ruleTree 0 last <;> grind

namespace Grammar

variable {grammar : Grammar} {text : Text} {start stop : Nat} {tree : ParseTree}

/-- Without a leaf nothing is read. -/
theorem Yields.eq_of_leavesOf_eq_nil {form : Form} {children : List (Option ParseTree)}
    (h : grammar.Yields text form start stop children)
    (hleaves : ParseTree.leavesOf children = []) : start = stop := by
  induction h with
  | literal | token => simp at hleaves
  | rule _ _ ih => exact ih (by simpa using hleaves)
  | seq _ ih => exact ih hleaves
  | either _ _ ih => exact ih hleaves
  | absent | noItem | noRound => rfl
  | present _ ih => exact ih (by simpa using hleaves)
  | loop _ ih => exact ih (by simpa using hleaves)
  | item _ _ ihfirst ihlater =>
    rw [ParseTree.leavesOf_append, List.append_eq_nil_iff] at hleaves
    exact (ihfirst hleaves.1).trans (ihlater hleaves.2)
  | round _ _ ihfirst ihlater =>
    rw [ParseTree.leavesOf_some, ParseTree.leaves_groupItems, List.append_eq_nil_iff] at hleaves
    exact (ihfirst hleaves.1).trans (ihlater hleaves.2)

/-- What the top rule derives from one offset up to another reads something and is not exceeded by
anything else that it derives from there, and the tree is the one that is built for it. -/
structure Longest (grammar : Grammar) (text : Text) (start stop : Nat) (tree : ParseTree) :
    Prop where
  /-- The place is one between two characters. -/
  isBoundary : text.IsBoundary start
  /-- Something is read. -/
  lt : start < stop
  /-- The tree is derived. -/
  derives : grammar.Derives text 0 start stop tree
  /-- The tree is the one that is built for where it ends. -/
  ruleTree_eq : ((grammar.chart text).seek start).ruleTree 0 stop = some tree
  /-- No other derivation goes further. -/
  le : ∀ other tree', grammar.Derives text 0 start other tree' → other ≤ stop

/-- The top rule reads nothing from an offset on. -/
def ReadsNothing (grammar : Grammar) (text : Text) (start : Nat) : Prop :=
  ∀ stop tree, grammar.Derives text 0 start stop tree → stop ≤ start

/-- At an offset there is one longest match, with one tree. -/
theorem Longest.unique (h : grammar.Longest text start stop tree) {stop' : Nat}
    {tree' : ParseTree} (h' : grammar.Longest text start stop' tree') :
    stop = stop' ∧ tree = tree' := by
  obtain rfl := Nat.le_antisymm (h'.le _ _ h.derives) (h.le _ _ h'.derives)
  exact ⟨rfl, Option.some.inj (h.ruleTree_eq.symm.trans h'.ruleTree_eq)⟩

theorem Longest.not_readsNothing (h : grammar.Longest text start stop tree) :
    ¬grammar.ReadsNothing text start :=
  fun hnothing => Nat.not_le_of_lt h.lt (hnothing stop tree h.derives)

theorem Longest.isBoundary_stop (h : grammar.Longest text start stop tree) : text.IsBoundary stop :=
  Yields.isBoundary h.derives h.isBoundary

theorem readsNothing_size (grammar : Grammar) (text : Text) :
    grammar.ReadsNothing text (Text.size text) := fun _ _ hderives =>
  (Yields.isBoundary hderives text.isBoundary_size).le_size

namespace Compiled

/-- The last of the offsets where a rule can end is the greatest one that it reaches. -/
theorem getLast?_ruleEnds_seek_eq_some_iff (h : grammar.Compiled) {index : Nat}
    (hindex : index < grammar.rules.size) (hstart : text.IsBoundary start) :
    (((grammar.chart text).seek start).ruleEnds index).getLast? = some stop ↔
      (∃ tree, grammar.Derives text index start stop tree) ∧
        ∀ other tree, grammar.Derives text index start other tree → other ≤ stop := by
  have hascending : (((grammar.chart text).seek start).ruleEnds index).Pairwise (· < ·) := by
    obtain ⟨front, back, rfl, rfl⟩ := Text.isBoundary_iff.1 hstart
    rw [seek_chart]
    exact ((h.fits front back).ruleEnds index).ascending
  rw [Ends.getLast?_eq_some_iff hascending]
  simp only [h.mem_ruleEnds_seek_iff hindex hstart, forall_exists_index]

/-- The search takes the longest match. -/
theorem longest?_eq_some_iff (h : grammar.Compiled) (hstart : text.IsBoundary start) :
    ((grammar.chart text).seek start).longest? = some (tree, stop) ↔
      grammar.Longest text start stop tree := by
  rw [Chart.longest?_eq_some_iff, h.getLast?_ruleEnds_seek_eq_some_iff h.pos hstart,
    h.offset_seek hstart]
  constructor
  · rintro ⟨⟨hends, hle⟩, hlt, htree, -⟩
    -- The last end can be built, and what is built is a derivation.
    obtain ⟨found, hfound, hderives⟩ :=
      h.exists_ruleTree_seek h.pos hstart ((h.mem_ruleEnds_seek_iff h.pos hstart).2 hends)
    obtain rfl := Option.some.inj (hfound.symm.trans htree)
    exact ⟨hstart, hlt, hderives, htree, hle⟩
  · intro hlongest
    have hleaves : tree.leaves ≠ [] := fun hnil =>
      Nat.ne_of_lt hlongest.lt (hlongest.derives.eq_of_leavesOf_eq_nil (by simpa using hnil))
    exact ⟨⟨⟨tree, hlongest.derives⟩, hlongest.le⟩, hlongest.lt, hlongest.ruleTree_eq, hleaves⟩

/-- Where something is read there is a longest match. -/
theorem exists_longest (h : grammar.Compiled) (hstart : text.IsBoundary start) (hlt : start < stop)
    (hderives : grammar.Derives text 0 start stop tree) :
    ∃ last found, grammar.Longest text start last found := by
  have hends := (h.mem_ruleEnds_seek_iff h.pos hstart).2 ⟨tree, hderives⟩
  cases hlast : (((grammar.chart text).seek start).ruleEnds 0).getLast? with
  | none =>
    rw [List.getLast?_eq_none_iff.1 hlast] at hends
    cases hends
  | some last =>
    obtain ⟨-, hle⟩ := (h.getLast?_ruleEnds_seek_eq_some_iff h.pos hstart).1 hlast
    obtain ⟨found, hfound, hderives'⟩ :=
      h.exists_ruleTree_seek h.pos hstart (List.mem_of_getLast? hlast)
    have hreads := Nat.lt_of_lt_of_le hlt (hle stop tree hderives)
    exact ⟨last, found, hstart, hreads, hderives', hfound, hle⟩

/-- The search finds nothing exactly where nothing is read. -/
theorem longest?_eq_none_iff (h : grammar.Compiled) (hstart : text.IsBoundary start) :
    ((grammar.chart text).seek start).longest? = none ↔ grammar.ReadsNothing text start := by
  constructor
  · intro hnone stop tree hderives
    refine Nat.le_of_not_lt fun hlt => ?_
    obtain ⟨last, found, hlongest⟩ := h.exists_longest hstart hlt hderives
    rw [(h.longest?_eq_some_iff hstart).2 hlongest] at hnone
    cases hnone
  · intro hnothing
    rw [Option.eq_none_iff_forall_ne_some]
    rintro ⟨tree, stop⟩ hlongest
    exact ((h.longest?_eq_some_iff hstart).1 hlongest).not_readsNothing hnothing

end Compiled

end Grammar

end Retrace
