import Retrace.Proofs.Grammar.Recognition

/-!
# Matching finds the longest derivation

A whole text matches exactly if the top rule derives a leading part of it behind which nothing but
what may be skipped is left, and the tree that is returned is a derivation of the longest such part.

## Main results

* `Grammar.matchExact_eq_some`, `Grammar.isSome_matchExact_iff`: what it means that a text matches;
* `Grammar.matching_of_compile`: recognition, tree building and matching agree with derivations.
-/

namespace Retrace

/-- The last offset that passes a test is the greatest one that does. -/
theorem Ends.find?_reverse_eq_some {offsets : List Nat} (h : offsets.Pairwise (· < ·))
    {test : Nat → Bool} {offset : Nat} (hfind : offsets.reverse.find? test = some offset) :
    offset ∈ offsets ∧ test offset = true ∧
      ∀ other ∈ offsets, test other = true → other ≤ offset := by
  obtain ⟨htest, greater, less, hreverse, hgreater⟩ := List.find?_eq_some_iff_append.1 hfind
  have hmem : offset ∈ offsets := List.mem_reverse.1 (List.mem_of_find?_eq_some hfind)
  refine ⟨hmem, htest, fun other hother hpass => ?_⟩
  have hdescend : (offsets.reverse).Pairwise (fun other offset => offset < other) :=
    List.pairwise_reverse.2 h
  rw [hreverse] at hdescend
  rw [← List.mem_reverse, hreverse] at hother
  rcases List.mem_append.1 hother with hother | hother
  · -- Greater offsets were tried before.
    have hfail := hgreater other hother
    rw [hpass] at hfail
    cases hfail
  · rcases List.mem_cons.1 hother with rfl | hother
    · exact Nat.le_refl _
    · obtain ⟨-, hless, -⟩ := List.pairwise_append.1 hdescend
      exact Nat.le_of_lt ((List.pairwise_cons.1 hless).1 other hother)

namespace Grammar

variable {grammar : Grammar} {text : Text}

/-- All that is left of a text from an offset on may be skipped. -/
def SkipsToEnd (grammar : Grammar) (text : Text) (stop : Nat) : Prop :=
  ∃ front back, text = front ++ back ∧ Text.size front = stop ∧
    (grammar.skip.length? back).getD 0 = back.length

/-- Skipping from a place leads to the end of the text exactly if all that is left is skipped. -/
theorem skippedOffset_seek_eq_size_iff {stop : Nat} (hstop : text.IsBoundary stop) :
    ((grammar.chart text).seek stop).skippedOffset grammar = Text.size text ↔
      grammar.SkipsToEnd text stop := by
  obtain ⟨front, back, rfl, rfl⟩ := Text.isBoundary_iff.1 hstop
  obtain ⟨gap, rest, rfl, hgap, hskipped⟩ := skipped_behind grammar front back
  rw [seek_chart, chartBehind_eq, Chart.skippedOffset, Row.cursor_ofCursor, hskipped]
  constructor
  · intro h
    have hsize : Text.size (front ++ gap) = Text.size (front ++ (gap ++ rest)) := h
    simp only [Text.size_append] at hsize
    obtain rfl : rest = [] := Text.size_eq_zero_iff.1 (by omega)
    rw [List.append_nil] at hgap ⊢
    exact ⟨front, gap, rfl, rfl, hgap⟩
  · rintro ⟨front', back', htext, hsize, hlength⟩
    obtain ⟨rfl, rfl⟩ := Text.eq_of_append_eq_append htext hsize.symm
    rw [hgap, List.length_append] at hlength
    obtain rfl : rest = [] := List.length_eq_zero_iff.1 (by omega)
    rw [List.append_nil]
    rfl

namespace Compiled

theorem seek_zero (chart : Chart) : chart.seek 0 = chart :=
  Chart.seek_of_le (Nat.zero_le _)

/-- Where a rule can end at the start of a text, its tree is a derivation. -/
theorem exists_ruleTree (h : grammar.Compiled) {index stop : Nat}
    (hindex : index < grammar.rules.size) (hstop : stop ∈ (grammar.chart text).ruleEnds index) :
    ∃ tree, (grammar.chart text).ruleTree index stop = some tree ∧
      grammar.Derives text index 0 stop tree := by
  rw [← seek_zero (grammar.chart text)] at hstop ⊢
  exact h.exists_ruleTree_seek hindex text.isBoundary_zero hstop

/-- A rule can end where it derives what stands before at the start of a text. -/
theorem mem_ruleEnds_iff (h : grammar.Compiled) {index stop : Nat}
    (hindex : index < grammar.rules.size) :
    stop ∈ (grammar.chart text).ruleEnds index ↔
      ∃ tree, grammar.Derives text index 0 stop tree := by
  rw [← seek_zero (grammar.chart text)]
  exact h.mem_ruleEnds_seek_iff hindex text.isBoundary_zero

theorem ascending_ruleEnds (h : grammar.Compiled) (index : Nat) :
    ((grammar.chart text).ruleEnds index).Pairwise (· < ·) := by
  rw [chart_eq]
  exact ((h.fits [] text).ruleEnds index).ascending

/-- The end of a derivation at the start of a text lies between two characters. -/
theorem isBoundary_of_mem_ruleEnds (h : grammar.Compiled) {index stop : Nat}
    (hstop : stop ∈ (grammar.chart text).ruleEnds index) : text.IsBoundary stop := by
  rw [chart_eq] at hstop
  obtain ⟨middle, rest, rfl, rfl⟩ := ((h.fits [] text).ruleEnds index).ahead hstop
  exact Text.isBoundary_iff.2 ⟨middle, rest, rfl, rfl⟩

/-- The tree of a text that matches is the one that is built for the longest derivation behind which
all that is left may be skipped. -/
theorem exists_ruleTree_of_matchExact (h : grammar.Compiled) {tree : ParseTree}
    (hmatch : grammar.matchExact text = some tree) :
    ∃ stop, (grammar.chart text).ruleTree 0 stop = some tree ∧
      grammar.Derives text 0 0 stop tree ∧ grammar.SkipsToEnd text stop ∧
      ∀ other tree', grammar.Derives text 0 0 other tree' → grammar.SkipsToEnd text other →
        other ≤ stop := by
  rw [matchExact] at hmatch
  split at hmatch
  · rename_i stop hfind
    obtain ⟨hstop, hskips, hgreatest⟩ := Ends.find?_reverse_eq_some (h.ascending_ruleEnds 0) hfind
    have hboundary := h.isBoundary_of_mem_ruleEnds hstop
    obtain ⟨found, htree, hderives⟩ := h.exists_ruleTree h.pos hstop
    obtain rfl : found = tree := Option.some.inj (htree.symm.trans hmatch)
    refine ⟨stop, htree, hderives, ?_, fun other tree' hother hskips' => hgreatest other ?_ ?_⟩
    · exact (skippedOffset_seek_eq_size_iff hboundary).1 (of_decide_eq_true hskips)
    · exact (h.mem_ruleEnds_iff h.pos).2 ⟨tree', hother⟩
    · have hends := (h.mem_ruleEnds_iff h.pos).2 ⟨tree', hother⟩
      refine decide_eq_true ?_
      exact (skippedOffset_seek_eq_size_iff (h.isBoundary_of_mem_ruleEnds hends)).2 hskips'
  · cases hmatch

/-- The tree of a text that matches is a derivation of its longest part behind which all that is
left may be skipped. -/
theorem matchExact_eq_some (h : grammar.Compiled) {tree : ParseTree}
    (hmatch : grammar.matchExact text = some tree) :
    ∃ stop, grammar.Derives text 0 0 stop tree ∧ grammar.SkipsToEnd text stop ∧
      ∀ other tree', grammar.Derives text 0 0 other tree' → grammar.SkipsToEnd text other →
        other ≤ stop := by
  obtain ⟨stop, -, hlongest⟩ := h.exists_ruleTree_of_matchExact hmatch
  exact ⟨stop, hlongest⟩

/-- A text matches exactly if the top rule derives a part of it behind which all that is left may be
skipped. -/
theorem isSome_matchExact_iff (h : grammar.Compiled) :
    (grammar.matchExact text).isSome = true ↔
      ∃ stop tree, grammar.Derives text 0 0 stop tree ∧ grammar.SkipsToEnd text stop := by
  constructor
  · intro hmatch
    obtain ⟨tree, htree⟩ := Option.isSome_iff_exists.1 hmatch
    obtain ⟨stop, hderives, hskips, -⟩ := h.matchExact_eq_some htree
    exact ⟨stop, tree, hderives, hskips⟩
  · rintro ⟨stop, tree, hderives, hskips⟩
    have hstop := (h.mem_ruleEnds_iff h.pos).2 ⟨tree, hderives⟩
    rw [matchExact]
    split
    · rename_i found hfind
      have hfound := List.mem_reverse.1 (List.mem_of_find?_eq_some hfind)
      obtain ⟨tree', htree', -⟩ := h.exists_ruleTree h.pos hfound
      rw [htree']
      rfl
    · rename_i hnone
      -- The end of the derivation would have been found.
      have hfails := List.find?_eq_none.1 hnone stop (List.mem_reverse.2 hstop)
      rw [decide_eq_true_eq, skippedOffset_seek_eq_size_iff (h.isBoundary_of_mem_ruleEnds hstop)]
        at hfails
      exact absurd hskips hfails

end Compiled

/-- For every compiled grammar and every text: evaluated at a place, an expression can end exactly
where it has a derivation, and every such end is built into one; the text matches exactly if the top
rule derives a part of it behind which all that is left may be skipped; and the tree that is
returned is a derivation of the longest such part. -/
theorem matching_of_compile {description : Text} {grammar : Grammar}
    (h : compile description = .ok grammar) (text : Text) :
    (∀ expr, grammar.Contains expr → ∀ start, text.IsBoundary start → ∀ stop,
      (stop ∈ expr.ends grammar ((grammar.chart text).seek start) ↔
        ∃ items, grammar.Yields text (.expr expr) start stop items) ∧
      (stop ∈ expr.ends grammar ((grammar.chart text).seek start) →
        ∃ items, expr.build grammar ((grammar.chart text).seek start) stop = some items ∧
          grammar.Yields text (.expr expr) start stop items)) ∧
    ((grammar.matchExact text).isSome = true ↔
      ∃ stop tree, grammar.Derives text 0 0 stop tree ∧ grammar.SkipsToEnd text stop) ∧
    ∀ tree, grammar.matchExact text = some tree →
      ∃ stop, grammar.Derives text 0 0 stop tree ∧ grammar.SkipsToEnd text stop ∧
        ∀ other tree', grammar.Derives text 0 0 other tree' → grammar.SkipsToEnd text other →
          other ≤ stop := by
  have hcompiled := compiled_of_compile h
  refine ⟨fun expr hexpr start hstart stop => ?_, hcompiled.isSome_matchExact_iff,
    fun tree htree => hcompiled.matchExact_eq_some htree⟩
  exact ⟨hcompiled.mem_ends_iff hexpr hstart, hcompiled.isBuilt hexpr hstart stop⟩

/-- Nested brackets, where one way to open them is the beginning of another. -/
def nestedBrackets : Text := "s = (\"<\" | \"<\" \"=\") { s } \">\";".toList

/-- Nested brackets match, by a derivation. -/
theorem matching_of_compile_nestedBrackets :
    ∃ grammar tree, compile nestedBrackets = .ok grammar ∧
      grammar.matchExact ['<', '=', ' ', '<', '>', '>'] = some tree ∧
      ∃ stop, grammar.Derives ['<', '=', ' ', '<', '>', '>'] 0 0 stop tree ∧
        grammar.SkipsToEnd ['<', '=', ' ', '<', '>', '>'] stop := by
  have hmatches : (compile nestedBrackets).toOption.any (fun grammar =>
      (grammar.matchExact ['<', '=', ' ', '<', '>', '>']).isSome) = true := by
    decide +kernel
  obtain ⟨grammar, hgrammar, hmatch⟩ := (Option.any_eq_true ..).1 hmatches
  obtain ⟨tree, htree⟩ := Option.isSome_iff_exists.1 hmatch
  have hcompile := Except.toOption_eq_some.1 hgrammar
  obtain ⟨-, -, htrees⟩ := matching_of_compile hcompile ['<', '=', ' ', '<', '>', '>']
  obtain ⟨stop, hderives, hskips, -⟩ := htrees tree htree
  exact ⟨grammar, tree, hcompile, htree, stop, hderives, hskips⟩

end Grammar

end Retrace
