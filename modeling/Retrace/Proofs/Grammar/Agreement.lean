import Retrace.Proofs.Grammar.Region
import Retrace.Proofs.Grammar.Tiling

/-!
# The match of a whole text and the first one found in it

Of all ends that the top rule reaches from the start of a text, matching the whole text takes the
greatest one behind which only what may be skipped is left, and searching the text takes the
greatest one of all. If blanks are what may be skipped the two are the same: whatever follows the
first of them is blank, so it is blank behind any further end, too. Blanks are what may be skipped
unless a description says otherwise.

## Main results

* `Grammar.skip_eq_of_compile`: without a directive for it, blanks may be skipped;
* `Grammar.head?_findAll_of_matchExact`: the match of a whole text is the first one found in it.
-/

namespace Retrace

/-- The definition says what may be skipped. -/
def Description.Definition.isSkip (definition : Definition) : Bool :=
  match definition.body with
  | .directive _ => definition.name = "skip"
  | .token _ | .rule _ => false

namespace Grammar

open Description

/-! ## What may be skipped -/

/-- A definition of anything else leaves alone what may be skipped. -/
theorem Collected.skip_eq_of_add {collected collected' : Collected} {definition : Definition}
    (h : collected.add definition = .ok collected') (hskip : definition.isSkip = false) :
    collected'.skip = collected.skip := by
  unfold Collected.add at h
  unfold Definition.isSkip at hskip
  -- Only the directive about blanks sets what may be skipped.
  cases hbody : definition.body with
  | directive pattern =>
    simp only [hbody, decide_eq_false_iff_not] at h hskip
    rw [if_pos hskip] at h
    cases h
  | token pattern =>
    simp only [hbody] at h
    split at h
    · cases h
    · split at h
      · obtain rfl := Except.ok.inj h
        rfl
      · cases h
  | rule body =>
    simp only [hbody] at h
    split at h
    · cases h
    · obtain rfl := Except.ok.inj h
      rfl

theorem Collected.skip_eq_of_foldlM {definitions : List Definition}
    {collected collected' : Collected}
    (h : definitions.foldlM Collected.add collected = .ok collected')
    (hskip : ∀ definition ∈ definitions, definition.isSkip = false) :
    collected'.skip = collected.skip := by
  induction definitions generalizing collected with
  | nil =>
    obtain rfl := Except.ok.inj h
    rfl
  | cons first later ih =>
    obtain ⟨hfirst, hlater⟩ := List.forall_mem_cons.1 hskip
    rw [List.foldlM_cons] at h
    obtain ⟨middle, hadd, h⟩ := Except.bind_eq_ok.1 h
    rw [ih h hlater, Collected.skip_eq_of_add hadd hfirst]

/-- What may be skipped is what the definitions say. -/
theorem exists_foldlM_of_ofDefinitions {definitions : List Definition} {grammar : Grammar}
    (h : ofDefinitions definitions = .ok grammar) :
    ∃ collected, definitions.foldlM Collected.add Collected.start = .ok collected ∧
      grammar.skip = collected.skip := by
  obtain ⟨collected, hcollect, h⟩ := Except.bind_eq_ok.1 h
  dsimp only at h
  split at h
  · cases h
  · obtain ⟨-, -, h⟩ := Except.bind_eq_ok.1 h
    obtain ⟨rules, -, h⟩ := Except.bind_eq_ok.1 h
    obtain ⟨⟨⟩, -, h⟩ := Except.bind_eq_ok.1 h
    obtain rfl := Except.ok.inj h
    exact ⟨collected, hcollect, rfl⟩

/-- If no definition says otherwise, blanks may be skipped. -/
theorem skip_eq_of_compile {description : Text} {definitions : List Definition} {grammar : Grammar}
    (hread : Description.read description = .ok definitions)
    (hskip : ∀ definition ∈ definitions, definition.isSkip = false)
    (h : compile description = .ok grammar) : grammar.skip = .blanks := by
  obtain ⟨definitions', hread', hdefinitions⟩ := Except.bind_eq_ok.1 h
  obtain rfl := Except.ok.inj (hread'.symm.trans hread)
  obtain ⟨collected, hcollect, hgrammar⟩ := exists_foldlM_of_ofDefinitions hdefinitions
  rw [hgrammar, Collected.skip_eq_of_foldlM hcollect hskip]
  rfl

variable {grammar : Grammar} {text : Text}

/-- Only blanks are left behind an offset if only blanks are left behind an earlier one. -/
theorem SkipsToEnd.of_le (hblanks : grammar.skip = .blanks) {stop other : Nat}
    (h : grammar.SkipsToEnd text stop) (hle : stop ≤ other) (hother : text.IsBoundary other) :
    grammar.SkipsToEnd text other := by
  have hall {gap : Text} : (grammar.skip.length? gap).getD 0 = gap.length ↔
      gap.all Text.isBlank = true := by
    have hgap := @Shape.getD_length?_blanks [] gap
    rw [List.append_nil] at hgap
    rw [hblanks, hgap]
    exact and_iff_left (Text.stops_nil _)
  obtain ⟨front, back, rfl, rfl, hback⟩ := h
  obtain ⟨between, rest, rfl, hsize⟩ := hother.exists_append hle
  refine ⟨front ++ between, rest, (List.append_assoc ..).symm, hsize, hall.2 ?_⟩
  have hblank := hall.1 hback
  rw [List.all_append, Bool.and_eq_true] at hblank
  exact hblank.2

/-! ## Both choices agree -/

/-- A tree with a leaf that is not empty reads something. -/
theorem Tiled.lt {start stop : Nat} {tree : ParseTree} (h : grammar.Tiled text start stop tree)
    {leaf : Leaf} (hleaf : leaf ∈ tree.leaves) (hne : leaf.text ≠ []) : start < stop := by
  obtain ⟨hwithin, hslice⟩ := h.leaf leaf hleaf
  have hlt : leaf.span.start ≠ leaf.span.stop := by
    intro heq
    rw [← heq, Text.slice_self hwithin.isBoundary_start] at hslice
    exact hne hslice.symm
  have hstart := hwithin.start_le
  have hle := hwithin.le
  have hstop := hwithin.le_stop
  omega

/-- If blanks may be skipped, the match of a whole text is the longest one from its start. -/
theorem Compiled.exists_longest_of_matchExact (h : grammar.Compiled)
    (hblanks : grammar.skip = .blanks) {tree : ParseTree}
    (hmatch : grammar.matchExact text = some tree) {leaf : Leaf} (hleaf : leaf ∈ tree.leaves)
    (hne : leaf.text ≠ []) : ∃ stop, grammar.Longest text 0 stop tree := by
  obtain ⟨stop, htree, hderives, hskips, hle⟩ := h.exists_ruleTree_of_matchExact hmatch
  have hzero := text.isBoundary_zero
  refine ⟨stop, hzero, (hderives.tiled hzero).lt hleaf hne, hderives, ?_, ?_⟩
  · rwa [seek_zero]
  · intro other tree' hother
    rcases Nat.le_total other stop with hother' | hother'
    · exact hother'
    · -- Behind a further end only blanks are left, so matching would have taken it.
      exact hle other tree' hother (hskips.of_le hblanks hother' (hother.isBoundary hzero))

/-- For every grammar with a description that does not say what may be skipped and every text: the
tree of the whole text, if it has a leaf that is not empty, is the first one found in the text. -/
theorem head?_findAll_of_matchExact {description : Text} {definitions : List Definition}
    {grammar : Grammar} (hread : Description.read description = .ok definitions)
    (hskip : ∀ definition ∈ definitions, definition.isSkip = false)
    (h : compile description = .ok grammar) {text : Text} {tree : ParseTree}
    (hmatch : grammar.matchExact text = some tree)
    (hleaf : ∃ leaf ∈ tree.leaves, leaf.text ≠ []) :
    (grammar.findAll text).head? = some tree := by
  have hcompiled := compiled_of_compile h
  obtain ⟨leaf, hleaf, hne⟩ := hleaf
  obtain ⟨stop, hlongest⟩ := hcompiled.exists_longest_of_matchExact
    (skip_eq_of_compile hread hskip h) hmatch hleaf hne
  obtain ⟨found, hscans, hfindAll⟩ := hcompiled.exists_scans_findAll text
  rw [hfindAll, List.head?_map, hscans.head?_eq_some hlongest]
  rfl

/-- A word, behind which a sign may follow. -/
def closedWord : Text := "s = IDENT [ \";\" ];".toList

/-- The match of a whole text is found first, with blanks around it. -/
theorem head?_findAll_of_matchExact_closedWord :
    ∃ grammar tree, compile closedWord = .ok grammar ∧
      grammar.matchExact [' ', 'a', ';', ' '] = some tree ∧
      (grammar.findAll [' ', 'a', ';', ' ']).head? = some tree := by
  have hdefinitions : (Description.read closedWord).toOption.any (fun definitions =>
      definitions.all fun definition => !definition.isSkip) = true := by
    decide +kernel
  have hmatches : (compile closedWord).toOption.any (fun grammar =>
      (grammar.matchExact [' ', 'a', ';', ' ']).any fun tree =>
        tree.leaves.any fun leaf => !leaf.text.isEmpty) = true := by
    decide +kernel
  obtain ⟨definitions, hread, hskip⟩ := (Option.any_eq_true ..).1 hdefinitions
  obtain ⟨grammar, hgrammar, hmatches⟩ := (Option.any_eq_true ..).1 hmatches
  obtain ⟨tree, htree, hleaves⟩ := (Option.any_eq_true ..).1 hmatches
  obtain ⟨leaf, hleaf, hne⟩ := List.any_eq_true.1 hleaves
  have hcompile := Except.toOption_eq_some.1 hgrammar
  refine ⟨grammar, tree, hcompile, htree, ?_⟩
  exact head?_findAll_of_matchExact (Except.toOption_eq_some.1 hread)
    (by simpa using hskip) hcompile htree ⟨leaf, hleaf, by simpa using hne⟩

end Grammar

end Retrace
