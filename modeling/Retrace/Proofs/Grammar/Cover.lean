import Retrace.Proofs.Grammar.Tiling

/-!
# Where a match begins and ends

A node covers its children, and children that matched nothing come in two forms. An optional part
without a match is left out and covers nothing. A repetition without an iteration, a rule or a group
in which nothing matched is a node of its own, and its span is the point where it was tried, ahead
of what may be skipped there.

At the end of a match this makes no difference, since such a point never lies behind the last leaf.
At its start it does: a match begins with its first leaf unless a node without a match stands ahead
of it, and then it begins where it was tried, with what was skipped in front of the first leaf.

## Main definitions

* `ParseTree.beginsEmpty`: a part without a match stands ahead of the first leaf;
* `Grammar.Covered`: where the span of a match begins and ends.

## Main results

* `Grammar.Yields.coverSpan_eq`: what covers the children that are derived;
* `Grammar.covered_of_compile`: the spans of the trees of a text and of what is found in it;
* `Grammar.span_emptyRounds`: the span of a match need not begin with its first leaf.
-/

namespace Retrace

namespace ParseTree

/-! ## Trees that begin with a part without a match -/

mutual

/-- Going down to the first child that is there, and so on, does not lead to a leaf but to a node
without any such child. -/
def beginsEmpty : ParseTree → Bool
  | leaf _ => false
  | node _ children _ => beginsEmptyOf children

/-- The first of some children that is there begins with a part without a match, or there is
none. -/
def beginsEmptyOf : List (Option ParseTree) → Bool
  | [] => true
  | none :: others => beginsEmptyOf others
  | some tree :: _ => tree.beginsEmpty

end

/-- The spans of the children that are there. -/
def spansPresent (children : List (Option ParseTree)) : List Span :=
  children.filterMap fun child => child.map ParseTree.span

variable {children front back : List (Option ParseTree)} {offset : Nat} {tree : ParseTree}

@[simp] theorem spansPresent_append :
    spansPresent (front ++ back) = spansPresent front ++ spansPresent back :=
  List.filterMap_append

@[simp] theorem beginsEmptyOf_singleton : beginsEmptyOf [some tree] = tree.beginsEmpty := by
  simp [beginsEmptyOf]

/-- Children that are not there do not count. -/
theorem beginsEmptyOf_append_of_eq_nil (h : spansPresent front = []) :
    beginsEmptyOf (front ++ back) = beginsEmptyOf back := by
  induction front with
  | nil => rfl
  | cons child others ih =>
    cases child with
    | none => exact ih h
    | some tree => simp [spansPresent] at h

/-- The first child that is there decides. -/
theorem beginsEmptyOf_append_of_ne_nil (h : spansPresent front ≠ []) :
    beginsEmptyOf (front ++ back) = beginsEmptyOf front := by
  induction front with
  | nil => exact absurd rfl h
  | cons child others ih =>
    cases child with
    | none => exact ih h
    | some tree => simp [beginsEmptyOf]

/-- Children that are not there have no leaves. -/
theorem leavesOf_eq_nil_of_spansPresent (h : spansPresent children = []) :
    leavesOf children = [] := by
  induction children with
  | nil => rfl
  | cons child others ih =>
    cases child with
    | none => exact ih h
    | some tree => simp [spansPresent] at h

mutual

/-- What does not begin with a part without a match begins with a leaf. -/
theorem leaves_ne_nil_of_beginsEmpty :
    (tree : ParseTree) → tree.beginsEmpty = false → tree.leaves ≠ []
  | .leaf found, _ => by simp
  | .node _ children _, h => by
    rw [leaves_node]
    exact leavesOf_ne_nil_of_beginsEmptyOf children h

theorem leavesOf_ne_nil_of_beginsEmptyOf :
    (children : List (Option ParseTree)) → beginsEmptyOf children = false → leavesOf children ≠ []
  | none :: others, h => leavesOf_ne_nil_of_beginsEmptyOf others h
  | some tree :: others, h => by
    have htree := leaves_ne_nil_of_beginsEmpty tree h
    simp [htree]

end

/-! ## What covers children -/

/-- A single child is covered by its span. -/
@[simp] theorem coverSpan_singleton : coverSpan [some tree] offset = tree.span := by
  simp [coverSpan]

/-- Without a child that is there the cover is a point. -/
theorem coverSpan_of_eq_nil (h : spansPresent children = []) :
    coverSpan children offset = .point offset := by
  rw [spansPresent] at h
  rw [coverSpan, h]

/-- Children that are not there are not covered. -/
theorem coverSpan_append_of_eq_nil (h : spansPresent front = []) :
    coverSpan (front ++ back) offset = coverSpan back offset := by
  rw [spansPresent] at h
  rw [coverSpan, List.filterMap_append, h, List.nil_append, coverSpan]

/-- What covers some children is extended by those behind them. -/
theorem coverSpan_append_of_ne_nil (h : spansPresent front ≠ []) :
    coverSpan (front ++ back) offset =
      (spansPresent back).foldl Span.cover (coverSpan front offset) := by
  rw [spansPresent] at h
  obtain ⟨first, others, hfront⟩ := List.exists_cons_of_ne_nil h
  rw [coverSpan, List.filterMap_append, hfront, coverSpan, hfront]
  simp [spansPresent]

/-- A cover that ends where children were tried, and begins no later than they do, is extended up to
where they end. -/
theorem foldl_cover_spansPresent {span : Span} (hstop : span.stop = offset)
    (hstart : span.start ≤ (coverSpan children offset).start)
    (hle : offset ≤ (coverSpan children offset).stop) :
    (spansPresent children).foldl Span.cover span =
      ⟨span.start, (coverSpan children offset).stop⟩ := by
  have hassoc (a b c : Span) : (a.cover b).cover c = a.cover (b.cover c) := by
    simp [Span.cover, Nat.min_assoc, Nat.max_assoc]
  cases hspans : spansPresent children with
  | nil =>
    rw [coverSpan_of_eq_nil hspans, List.foldl_nil, ← hstop]
    rfl
  | cons first others =>
    have hcover : coverSpan children offset = others.foldl Span.cover first := by
      rw [spansPresent] at hspans
      rw [coverSpan, hspans]
    rw [hcover] at hstart hle ⊢
    have : Std.Associative Span.cover := ⟨hassoc⟩
    rw [List.foldl_cons, List.foldl_assoc, Span.cover, Nat.min_eq_left hstart,
      Nat.max_eq_right (hstop ▸ hle)]

/-- A group has the span that covers its items, even if there is only one. -/
@[simp] theorem span_groupItems (items : List (Option ParseTree)) :
    (groupItems items offset).span = coverSpan items offset := by
  unfold groupItems
  split <;> simp

@[simp] theorem beginsEmpty_groupItems (items : List (Option ParseTree)) :
    (groupItems items offset).beginsEmpty = beginsEmptyOf items := by
  unfold groupItems
  split <;> simp [beginsEmpty]

end ParseTree

namespace Grammar

open ParseTree

variable {grammar : Grammar} {text : Text} {start middle stop : Nat}

/-- The offset where the first of some leaves begins; without any, the given offset. -/
def firstStart (start : Nat) (leaves : List Leaf) : Nat :=
  match leaves.head? with
  | some first => first.span.start
  | none => start

/-- The first of some leaves begins behind what is skipped where their tiling begins. -/
theorem Tiles.start_first {leaves : List Leaf} {first : Leaf}
    (h : grammar.Tiles text start leaves stop) (hfirst : leaves.head? = some first) :
    first.span.start = grammar.behindSkipped text start := by
  cases h with
  | nil => cases hfirst
  | cons hstart _ _ _ =>
    obtain rfl := Option.some.inj hfirst
    exact hstart

/-- The first of some leaves begins no earlier than their tiling. -/
theorem Tiles.le_firstStart {leaves : List Leaf} (h : grammar.Tiles text start leaves stop) :
    start ≤ firstStart start leaves := by
  cases h with
  | nil => exact Nat.le_refl _
  | cons _ hwithin _ _ => exact hwithin.start_le

/-- The first of some leaves begins no later than their tiling ends. -/
theorem Tiles.firstStart_le {leaves : List Leaf} (h : grammar.Tiles text start leaves stop) :
    firstStart start leaves ≤ stop := by
  cases h with
  | nil => exact Nat.le_refl _
  | cons _ hwithin _ hlater => exact Nat.le_trans hwithin.le hlater.le

/-- Where the cover of children begins that were tried at an offset: there if they begin with a part
without a match, else with the first leaf. -/
def coverStart (start : Nat) (children : List (Option ParseTree)) : Nat :=
  if beginsEmptyOf children then start else firstStart start (leavesOf children)

namespace Yields

variable {form : Form} {children front back : List (Option ParseTree)}

/-- Covers of what is derived in two parts of a text, one behind the other, make one of both. -/
theorem coverSpan_append (hfront : grammar.Tiles text start (leavesOf front) middle)
    (hback : grammar.Tiles text middle (leavesOf back) stop)
    (h : coverSpan front start = ⟨coverStart start front, middle⟩)
    (h' : coverSpan back middle = ⟨coverStart middle back, stop⟩) :
    coverSpan (front ++ back) start = ⟨coverStart start (front ++ back), stop⟩ := by
  by_cases hnil : spansPresent front = []
  · -- Nothing was derived in front, so the second part was tried where the first one was.
    rw [coverSpan_of_eq_nil hnil] at h
    obtain rfl : start = middle := (Span.mk.inj h).2
    rw [coverSpan_append_of_eq_nil hnil, h', coverStart, coverStart,
      beginsEmptyOf_append_of_eq_nil hnil, leavesOf_append, leavesOf_eq_nil_of_spansPresent hnil,
      List.nil_append]
  · have hstart : coverStart start (front ++ back) = coverStart start front := by
      rw [coverStart, coverStart, beginsEmptyOf_append_of_ne_nil hnil]
      split
      · rfl
      · rename_i hempty
        have hleaves := leavesOf_ne_nil_of_beginsEmptyOf front (Bool.eq_false_iff.2 hempty)
        rw [leavesOf_append, firstStart, firstStart, List.head?_append_of_ne_nil _ hleaves]
    have hmiddle : coverStart start front ≤ middle := by
      rw [coverStart]
      split
      · exact hfront.le
      · exact hfront.firstStart_le
    have hbehind : middle ≤ coverStart middle back := by
      rw [coverStart]
      split
      · exact Nat.le_refl _
      · exact hback.le_firstStart
    have hstop : (coverSpan front start).stop = middle := by rw [h]
    rw [coverSpan_append_of_ne_nil hnil, hstart, foldl_cover_spansPresent hstop, h, h']
    · rw [h, h']
      exact Nat.le_trans hmiddle hbehind
    · rw [h']
      exact hback.le

/-- The children of what is derived cover the text from their first leaf, or from where they were
tried if they begin with a part without a match, up to where the derivation ends. -/
theorem coverSpan_eq (h : grammar.Yields text form start stop children) :
    coverSpan children start = ⟨coverStart start children, stop⟩ := by
  -- Terminals, rules, groups and repetitions are single trees, which are covered by their spans.
  induction h with
  | literal _ => simp [coverStart, firstStart, beginsEmpty]
  | token _ _ _ _ => simp [coverStart, firstStart, beginsEmpty]
  | rule _ _ ih => simpa [coverStart, beginsEmpty] using ih
  | seq _ ih => exact ih
  | either _ _ ih => exact ih
  | absent _ start => rfl
  | present _ ih => simpa [coverStart] using ih
  | loop _ ih => simpa [coverStart, beginsEmpty] using ih
  | noItem start => rfl
  | item hfirst hlater ihfirst ihlater =>
    exact coverSpan_append hfirst.tiles hlater.tiles ihfirst ihlater
  | noRound _ start => rfl
  | @round body start middle stop below later hfirst hlater ihfirst ihlater =>
    have hround : grammar.Tiles text start (leavesOf [some (groupItems below start)]) middle := by
      simpa using hfirst.tiles
    rw [← List.singleton_append]
    refine coverSpan_append hround hlater.tiles ?_ ihlater
    simpa [coverStart] using ihfirst

end Yields

/-- What the span of a tree is that was tried at an offset and has a first and a last leaf. -/
structure Covered (grammar : Grammar) (text : Text) (start : Nat) (tree : ParseTree)
    (first last : Leaf) : Prop where
  /-- The first leaf begins behind what is skipped where the tree was tried. -/
  start_first : first.span.start = grammar.behindSkipped text start
  /-- The tree begins where it was tried if it begins with a part without a match, else with its
  first leaf; it ends with its last leaf. -/
  span_eq : tree.span = ⟨if tree.beginsEmpty then start else first.span.start, last.span.stop⟩
  /-- So the span is that of the leaves unless something was skipped behind a part without a
  match. -/
  span_eq_iff : tree.span = ⟨first.span.start, last.span.stop⟩ ↔
    (tree.beginsEmpty = true → grammar.behindSkipped text start = start)

/-- A tree that a rule derives has such a span. -/
theorem Derives.covered {index : Nat} {tree : ParseTree} {first last : Leaf}
    (h : grammar.Derives text index start stop tree) (hfirst : tree.leaves.head? = some first)
    (hlast : tree.leaves.getLast? = some last) : grammar.Covered text start tree first last := by
  have htiles : grammar.Tiles text start tree.leaves stop := by simpa using Yields.tiles h
  have hstart := htiles.start_first hfirst
  have hstop : stop = last.span.stop := by
    have hstop := htiles.stop_eq
    rwa [lastStop, hlast] at hstop
  have hspan : tree.span =
      ⟨if tree.beginsEmpty then start else first.span.start, last.span.stop⟩ := by
    have hcover := Yields.coverSpan_eq h
    simpa [coverStart, firstStart, hfirst, hstop] using hcover
  refine ⟨hstart, hspan, ?_⟩
  rw [hspan, ← hstart]
  cases tree.beginsEmpty <;> simp [eq_comm]

/-- For every compiled grammar and every text: the tree of a text that matches and those that are
found in it end with their last leaves, and they begin with their first leaves unless they begin
with a part without a match behind which something was skipped. In this case they begin where they
were tried. -/
theorem covered_of_compile {description : Text} {grammar : Grammar}
    (h : compile description = .ok grammar) (text : Text) :
    (∀ tree, grammar.matchExact text = some tree →
      ∀ first last, tree.leaves.head? = some first → tree.leaves.getLast? = some last →
        grammar.Covered text 0 tree first last) ∧
    ∀ tree ∈ grammar.findAll text, ∃ start stop,
      ((grammar.chart text).seek start).longest? = some (tree, stop) ∧
      ∀ first last, tree.leaves.head? = some first → tree.leaves.getLast? = some last →
        grammar.Covered text start tree first last := by
  have hcompiled := compiled_of_compile h
  refine ⟨fun tree htree first last hfirst hlast => ?_, fun tree htree => ?_⟩
  · obtain ⟨stop, hderives, -⟩ := hcompiled.matchExact_eq_some htree
    exact hderives.covered hfirst hlast
  · obtain ⟨found, hscans, hfindAll⟩ := hcompiled.exists_scans_findAll text
    rw [hfindAll] at htree
    obtain ⟨m, hm, rfl⟩ := List.mem_map.1 htree
    have hlongest := (hscans.longest m hm).2
    exact ⟨m.span.start, m.span.stop,
      (hcompiled.longest?_eq_some_iff hlongest.isBoundary).2 hlongest,
      fun first last hfirst hlast => hlongest.derives.covered hfirst hlast⟩

/-- A word with any number of signs ahead of it. -/
def emptyRounds : Text := "s = \x7b \"x\" \x7d IDENT;".toList

/-- A word without a sign ahead of it matches from where it is tried on, and one that is found with
a sign ahead of it from this sign on. -/
theorem covered_of_compile_emptyRounds :
    ∃ grammar tree found first last, compile emptyRounds = .ok grammar ∧
      grammar.matchExact [' ', 'a'] = some tree ∧
      grammar.Covered [' ', 'a'] 0 tree first first ∧ tree.span.start = 0 ∧
      found ∈ grammar.findAll [' ', 'x', ' ', 'a'] ∧ ∃ start ahead,
        grammar.Covered [' ', 'x', ' ', 'a'] start found ahead last ∧
          found.span.start = ahead.span.start := by
  have hmatches : (compile emptyRounds).toOption.any (fun grammar =>
      ((grammar.matchExact [' ', 'a']).any fun tree =>
        tree.leaves.length = 1 && tree.beginsEmpty) &&
        (grammar.findAll [' ', 'x', ' ', 'a']).any fun found =>
          found.leaves.length = 2 && !found.beginsEmpty) = true := by
    decide +kernel
  obtain ⟨grammar, hgrammar, hmatches⟩ := (Option.any_eq_true ..).1 hmatches
  rw [Bool.and_eq_true] at hmatches
  obtain ⟨tree, htree, hleaf⟩ := (Option.any_eq_true ..).1 hmatches.1
  obtain ⟨found, hfound, hleaves⟩ := List.any_eq_true.1 hmatches.2
  simp only [Bool.and_eq_true, decide_eq_true_eq, Bool.not_eq_true'] at hleaf hleaves
  obtain ⟨first, hfirst⟩ := List.length_eq_one_iff.1 hleaf.1
  obtain ⟨ahead, last, hboth⟩ := List.length_eq_two.1 hleaves.1
  have hcompile := Except.toOption_eq_some.1 hgrammar
  obtain ⟨hexact, -⟩ := covered_of_compile hcompile [' ', 'a']
  obtain ⟨-, hall⟩ := covered_of_compile hcompile [' ', 'x', ' ', 'a']
  have hcovered := hexact tree htree first first (by simp [hfirst]) (by simp [hfirst])
  obtain ⟨start, stop, -, hfound'⟩ := hall found hfound
  have hcovered' := hfound' ahead last (by simp [hboth]) (by simp [hboth])
  refine ⟨grammar, tree, found, first, last, hcompile, htree, hcovered, ?_, hfound, start, ahead,
    hcovered', ?_⟩
  · rw [hcovered.span_eq, hleaf.2]
    rfl
  · rw [hcovered'.span_eq, hleaves.2]
    rfl

/-- The match of a word behind a blank begins with the blank, although its only leaf is the word,
because the repetition ahead of the word makes no iteration. -/
theorem span_emptyRounds :
    ∃ grammar tree found leaf, compile emptyRounds = .ok grammar ∧
      grammar.matchExact [' ', 'a'] = some tree ∧ grammar.findAll [' ', 'a'] = [found] ∧
      tree.leaves = [leaf] ∧ found.leaves = [leaf] ∧ leaf.span = ⟨1, 2⟩ ∧
      tree.span = ⟨0, 2⟩ ∧ found.span = ⟨0, 2⟩ := by
  have hmatches : (compile emptyRounds).toOption.any (fun grammar =>
      ((grammar.matchExact [' ', 'a']).any fun tree =>
        tree.leaves = [⟨"IDENT", ['a'], ⟨1, 2⟩⟩] && tree.span = ⟨0, 2⟩) &&
        (grammar.findAll [' ', 'a']).length = 1 &&
        (grammar.findAll [' ', 'a']).all fun found =>
          found.leaves = [⟨"IDENT", ['a'], ⟨1, 2⟩⟩] && found.span = ⟨0, 2⟩) = true := by
    decide +kernel
  obtain ⟨grammar, hgrammar, hmatches⟩ := (Option.any_eq_true ..).1 hmatches
  simp only [Bool.and_eq_true, decide_eq_true_eq] at hmatches
  obtain ⟨⟨hexact, hlength⟩, hall⟩ := hmatches
  obtain ⟨tree, htree, hspans⟩ := (Option.any_eq_true ..).1 hexact
  obtain ⟨found, hfound⟩ := List.length_eq_one_iff.1 hlength
  rw [hfound, List.all_cons, List.all_nil] at hall
  simp only [Bool.and_eq_true, decide_eq_true_eq, and_true] at hspans hall
  exact ⟨grammar, tree, found, _, Except.toOption_eq_some.1 hgrammar, htree, hfound, hspans.1,
    hall.1, rfl, hspans.2, hall.2⟩

end Grammar

end Retrace
