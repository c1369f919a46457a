import Retrace.Proofs.Grammar.Leftmost
import Retrace.Proofs.Grammar.Matching
import Retrace.Proofs.Grammar.Spans

/-!
# Leaves tile the text

Between the offset at which a tree was tried and the one at which it ends, the text consists of the
leaves of the tree and of what was skipped in front of each of them. Nothing is lost and nothing is
read twice: a leaf begins behind exactly what may be skipped where the one before ends, and the tree
ends where its last leaf does. Inner nodes add nothing to this, but their spans fit in: listed from
the root down and from left to right, the spans of a tree never begin ahead of an earlier one.

Both follow by induction on derivations, from what a form derives in one part of the text and what
the next one derives behind it.

## Main definitions

* `Grammar.behindSkipped`: the offset behind what may be skipped;
* `Grammar.Tiles`: leaves follow each other with nothing but skipped text between them;
* `ParseTree.spans`: the spans of nodes and leaves, in the order of a walk from the root;
* `Grammar.Tiled`: all that is said above about a tree.

## Main results

* `Grammar.Yields.tiles`, `Grammar.Yields.preordered`: leaves and spans of what is derived;
* `Grammar.tiled_of_compile`: the trees of a text and of what is found in it tile the text.
-/

namespace Retrace

namespace ParseTree

/-! ## Spans from the root down -/

mutual

/-- The spans of the nodes and leaves of a tree, each node ahead of what is below it. -/
def spans : ParseTree → List Span
  | leaf found => [found.span]
  | node _ children span => span :: spansOf children

/-- The spans of the nodes and leaves of some children. -/
def spansOf : List (Option ParseTree) → List Span
  | [] => []
  | none :: others => spansOf others
  | some tree :: others => tree.spans ++ spansOf others

end

@[simp] theorem spansOf_nil : spansOf [] = [] :=
  rfl

@[simp] theorem spansOf_none (others : List (Option ParseTree)) :
    spansOf (none :: others) = spansOf others :=
  rfl

@[simp] theorem spansOf_some (tree : ParseTree) (others : List (Option ParseTree)) :
    spansOf (some tree :: others) = tree.spans ++ spansOf others :=
  rfl

@[simp] theorem spansOf_append (front back : List (Option ParseTree)) :
    spansOf (front ++ back) = spansOf front ++ spansOf back := by
  induction front with
  | nil => rfl
  | cons first later ih => cases first <;> simp [ih]

/-- The first span of a tree is its own. -/
theorem exists_spans_eq_cons (tree : ParseTree) : ∃ below, tree.spans = tree.span :: below := by
  cases tree with
  | leaf found => exact ⟨[], rfl⟩
  | node rule children span => exact ⟨spansOf children, rfl⟩

/-- The spans of children are among those below the node. -/
theorem span_mem_spansOf {tree : ParseTree} {children : List (Option ParseTree)}
    (h : some tree ∈ children) : tree.span ∈ spansOf children := by
  obtain ⟨front, back, rfl⟩ := List.append_of_mem h
  obtain ⟨below, hbelow⟩ := tree.exists_spans_eq_cons
  simp [hbelow]

end ParseTree

/-- What covers some children begins where the first of their spans does or ahead of it. -/
theorem start_coverSpan_le_of_head? {children : List (Option ParseTree)} {offset : Nat}
    {span : Span} (h : (ParseTree.spansOf children).head? = some span) :
    (coverSpan children offset).start ≤ span.start := by
  induction children with
  | nil => cases h
  | cons child others ih =>
    cases child with
    | none => exact ih h
    | some tree =>
      obtain ⟨below, hbelow⟩ := tree.exists_spans_eq_cons
      rw [ParseTree.spansOf_some, hbelow, List.cons_append, List.head?_cons] at h
      obtain rfl := Option.some.inj h
      exact Span.start_foldl_cover_le ..

namespace Span

/-- Spans lie between two offsets of a text, and none begins ahead of an earlier one. -/
structure Preordered (text : Text) (start stop : Nat) (spans : List Span) : Prop where
  /-- The spans lie between the offsets. -/
  within : ∀ span ∈ spans, span.Within text start stop
  /-- The starts do not decrease. -/
  pairwise : spans.Pairwise fun span later => span.start ≤ later.start

namespace Preordered

variable {text : Text} {start middle stop : Nat} {spans front back : List Span}

theorem nil (text : Text) (start stop : Nat) : Preordered text start stop [] :=
  ⟨nofun, .nil⟩

theorem singleton {span : Span} (h : span.Within text start stop) :
    Preordered text start stop [span] where
  within _ hother := List.mem_singleton.1 hother ▸ h
  pairwise := List.pairwise_singleton ..

/-- Spans behind an offset follow those ahead of it. -/
theorem append (h : Preordered text start middle front) (h' : Preordered text middle stop back)
    (hle : start ≤ middle) (hle' : middle ≤ stop) : Preordered text start stop (front ++ back) where
  within span hspan := by
    rcases List.mem_append.1 hspan with hspan | hspan
    · exact (h.within span hspan).mono (Nat.le_refl _) hle'
    · exact (h'.within span hspan).mono hle (Nat.le_refl _)
  pairwise := List.pairwise_append.2 ⟨h.pairwise, h'.pairwise, fun span hspan later hlater => by
    have hspan := h.within span hspan
    exact Nat.le_trans (Nat.le_trans hspan.le hspan.le_stop) (h'.within later hlater).start_le⟩

/-- The span that covers some children comes ahead of theirs. -/
theorem cover {children : List (Option ParseTree)} (hle : start ≤ stop)
    (hstart : text.IsBoundary start)
    (h : Preordered text start stop (ParseTree.spansOf children)) :
    Preordered text start stop (coverSpan children start :: ParseTree.spansOf children) where
  within := by
    exact List.forall_mem_cons.2 ⟨.coverSpan hle hstart fun tree htree =>
      h.within _ (ParseTree.span_mem_spansOf htree), h.within⟩
  pairwise := by
    refine List.pairwise_cons.2 ⟨fun span hspan => ?_, h.pairwise⟩
    -- The cover begins no later than the first span, and that one no later than the others.
    cases hspans : ParseTree.spansOf children with
    | nil =>
      rw [hspans] at hspan
      cases hspan
    | cons first later =>
      have hfirst : (coverSpan children start).start ≤ first.start :=
        start_coverSpan_le_of_head? (by rw [hspans, List.head?_cons])
      have hpairwise := h.pairwise
      rw [hspans] at hspan hpairwise
      rcases List.mem_cons.1 hspan with rfl | hspan
      · exact hfirst
      · exact Nat.le_trans hfirst ((List.pairwise_cons.1 hpairwise).1 span hspan)

/-- The spans of a group are those of its items, or come behind the one that covers them. -/
theorem groupItems {items : List (Option ParseTree)} (hle : start ≤ stop)
    (hstart : text.IsBoundary start) (h : Preordered text start stop (ParseTree.spansOf items)) :
    Preordered text start stop (Retrace.groupItems items start).spans := by
  unfold Retrace.groupItems
  split
  · simpa using h
  · exact h.cover hle hstart

end Preordered

end Span

namespace Grammar

variable {grammar : Grammar} {text : Text}

/-! ## Leaves one behind the other -/

/-- The offset behind whatever may be skipped at an offset of a text. -/
def behindSkipped (grammar : Grammar) (text : Text) (offset : Nat) : Nat :=
  offset + Text.size
    ((text.since offset).take ((grammar.skip.length? (text.since offset)).getD 0))

theorem behindSkipped_append {front gap rest : Text}
    (hgap : (grammar.skip.length? (gap ++ rest)).getD 0 = gap.length) :
    grammar.behindSkipped (front ++ (gap ++ rest)) (Text.size front) =
      Text.size (front ++ gap) := by
  rw [behindSkipped, Text.since_append, hgap, List.take_left, Text.size_append]

/-- On the chart of a text, skipping leads to the offset behind whatever may be skipped. -/
theorem skippedOffset_seek {offset : Nat} (hoffset : text.IsBoundary offset) :
    ((grammar.chart text).seek offset).skippedOffset grammar =
      grammar.behindSkipped text offset := by
  obtain ⟨front, back, rfl, rfl⟩ := Text.isBoundary_iff.1 hoffset
  obtain ⟨gap, rest, rfl, hgap, hskipped⟩ := skipped_behind grammar front back
  rw [seek_chart, chartBehind_eq, Chart.skippedOffset, Row.cursor_ofCursor, hskipped,
    behindSkipped_append hgap]
  rfl

/-- Leaves stand in a text one behind the other, each behind exactly what may be skipped where the
one before ends, from one offset up to another. -/
inductive Tiles (grammar : Grammar) (text : Text) : (start : Nat) → List Leaf → (stop : Nat) → Prop
  | nil (offset : Nat) : Tiles grammar text offset [] offset
  | cons {start stop : Nat} {leaf : Leaf} {later : List Leaf} :
      leaf.span.start = grammar.behindSkipped text start →
      leaf.span.Within text start (Text.size text) →
      text.slice leaf.span.start leaf.span.stop = leaf.text →
      Tiles grammar text leaf.span.stop later stop →
      Tiles grammar text start (leaf :: later) stop

/-- The text from an offset up to the end of the last of some leaves, put together from the leaves
and what lies between them. -/
def spelled (text : Text) : (start : Nat) → List Leaf → Text
  | _, [] => []
  | start, leaf :: later =>
    text.slice start leaf.span.start ++ (leaf.text ++ spelled text leaf.span.stop later)

/-- The offset where the last of some leaves ends; without any, the given offset. -/
def lastStop (start : Nat) (leaves : List Leaf) : Nat :=
  match leaves.getLast? with
  | some leaf => leaf.span.stop
  | none => start

namespace Tiles

variable {start middle stop : Nat} {leaves front back : List Leaf}

/-- A word that stands behind a leading part is a leaf of its own. -/
theorem of_stands {ahead gap word behind : Text} (h : grammar.Stands text ahead gap word behind)
    (token : String) :
    grammar.Tiles text (Text.size ahead)
      [⟨token, word, ⟨Text.size (ahead ++ gap), Text.size (ahead ++ (gap ++ word))⟩⟩]
      (Text.size (ahead ++ (gap ++ word))) := by
  obtain rfl := h.text_eq
  refine .cons (behindSkipped_append h.length_gap).symm (h.within.mono (Nat.le_refl _) ?_) ?_
    (.nil _)
  · simp only [Text.size_append]
    omega
  · dsimp only
    rw [← List.append_assoc ahead gap word, ← List.append_assoc ahead gap (word ++ behind)]
    exact Text.slice_append

theorem append (h : grammar.Tiles text start front middle)
    (h' : grammar.Tiles text middle back stop) : grammar.Tiles text start (front ++ back) stop := by
  induction h with
  | nil => exact h'
  | cons hstart hwithin htext _ ih => exact .cons hstart hwithin htext (ih h')

theorem le (h : grammar.Tiles text start leaves stop) : start ≤ stop := by
  induction h with
  | nil => exact Nat.le_refl _
  | cons _ hwithin _ _ ih => exact Nat.le_trans (Nat.le_trans hwithin.start_le hwithin.le) ih

/-- Leaves lie between the offsets that they tile. -/
theorem within (h : grammar.Tiles text start leaves stop) :
    ∀ leaf ∈ leaves, leaf.span.Within text start stop := by
  induction h with
  | nil => exact fun leaf hleaf => (List.not_mem_nil hleaf).elim
  | cons _ hwithin _ hlater ih =>
    refine List.forall_mem_cons.2 ⟨{ hwithin with le_stop := hlater.le }, fun leaf hleaf => ?_⟩
    exact (ih leaf hleaf).mono (Nat.le_trans hwithin.start_le hwithin.le) (Nat.le_refl _)

/-- Leaves are what the text holds where they stand. -/
theorem slice_eq (h : grammar.Tiles text start leaves stop) :
    ∀ leaf ∈ leaves, text.slice leaf.span.start leaf.span.stop = leaf.text := by
  induction h with
  | nil => exact fun leaf hleaf => (List.not_mem_nil hleaf).elim
  | cons _ _ htext _ ih => exact List.forall_mem_cons.2 ⟨htext, ih⟩

/-- No two leaves overlap. -/
theorem pairwise (h : grammar.Tiles text start leaves stop) :
    leaves.Pairwise fun leaf later => leaf.span.stop ≤ later.span.start := by
  induction h with
  | nil => exact .nil
  | cons _ _ _ hlater ih =>
    exact List.pairwise_cons.2 ⟨fun leaf hleaf => (hlater.within leaf hleaf).start_le, ih⟩

/-- The last leaf ends where the tiling ends. -/
theorem stop_eq (h : grammar.Tiles text start leaves stop) : stop = lastStop start leaves := by
  induction h with
  | nil => rfl
  | @cons start stop leaf later _ _ _ _ ih =>
    rw [ih, lastStop, lastStop, List.getLast?_cons]
    cases later.getLast? <;> rfl

/-- Nothing lies between two offsets but leaves and what was skipped between them. -/
theorem slice_eq_spelled (h : grammar.Tiles text start leaves stop)
    (hstart : text.IsBoundary start) (hstop : text.IsBoundary stop) :
    text.slice start stop = spelled text start leaves := by
  induction h with
  | nil => exact Text.slice_self hstart
  | cons _ hwithin htext hlater ih =>
    -- The text is cut where the first leaf ends and once more where it begins.
    rw [spelled, ← ih hwithin.isBoundary_stop hstop, ← htext,
      Text.slice_append_slice hwithin.isBoundary_start hwithin.isBoundary_stop hstop hwithin.le
        hlater.le,
      Text.slice_append_slice hstart hwithin.isBoundary_start hstop hwithin.start_le
        (Nat.le_trans hwithin.le hlater.le)]

end Tiles

/-! ## What is derived -/

namespace Yields

variable {form : Form} {start stop : Nat} {children : List (Option ParseTree)}

/-- The leaves of what is derived tile the text that is derived. -/
theorem tiles (h : grammar.Yields text form start stop children) :
    grammar.Tiles text start (ParseTree.leavesOf children) stop := by
  induction h with
  | literal hstands => exact .of_stands hstands _
  | token _ _ _ hstands => exact .of_stands hstands _
  | rule _ _ ih => simpa using ih
  | seq _ ih => exact ih
  | either _ _ ih => exact ih
  | absent _ start => exact .nil start
  | present _ ih => simpa using ih
  | loop _ ih => simpa using ih
  | noItem start => exact .nil start
  | item _ _ ihfirst ihlater =>
    rw [ParseTree.leavesOf_append]
    exact ihfirst.append ihlater
  | noRound _ start => exact .nil start
  | round _ _ ihfirst ihlater =>
    rw [ParseTree.leavesOf_some, ParseTree.leaves_groupItems]
    exact ihfirst.append ihlater

/-- The spans of what is derived lie there, and none begins ahead of an earlier one. -/
theorem preordered (h : grammar.Yields text form start stop children)
    (hstart : text.IsBoundary start) :
    Span.Preordered text start stop (ParseTree.spansOf children) := by
  -- A node is derived where its children are.
  have hnode {rule : Option String} {start stop : Nat} {below : List (Option ParseTree)}
      (hle : start ≤ stop) (hstart : text.IsBoundary start)
      (hbelow : Span.Preordered text start stop (ParseTree.spansOf below)) :
      Span.Preordered text start stop
        (ParseTree.spansOf [some (.node rule below (coverSpan below start))]) := by
    rw [ParseTree.spansOf_some, ParseTree.spansOf_nil, List.append_nil]
    exact hbelow.cover hle hstart
  induction h with
  | literal hstands => exact .singleton hstands.within
  | token _ _ _ hstands => exact .singleton hstands.within
  | rule _ hbody ih => exact hnode hbody.le hstart (ih hstart)
  | seq _ ih => exact ih hstart
  | either _ _ ih => exact ih hstart
  | absent => exact .nil ..
  | present hbody ih =>
    rw [ParseTree.spansOf_some, ParseTree.spansOf_nil, List.append_nil]
    exact (ih hstart).groupItems hbody.le hstart
  | loop hrounds ih => exact hnode hrounds.le hstart (ih hstart)
  | noItem => exact .nil ..
  | item hfirst hlater ihfirst ihlater =>
    rw [ParseTree.spansOf_append]
    exact (ihfirst hstart).append (ihlater (hfirst.isBoundary hstart)) hfirst.le hlater.le
  | noRound => exact .nil ..
  | round hfirst hlater ihfirst ihlater =>
    rw [ParseTree.spansOf_some]
    exact ((ihfirst hstart).groupItems hfirst.le hstart).append
      (ihlater (hfirst.isBoundary hstart)) hfirst.le hlater.le

end Yields

/-- The leaves of a tree and what was skipped in front of them are all of the text from one offset
up to another, and the spans in the tree fit in. -/
structure Tiled (grammar : Grammar) (text : Text) (start stop : Nat) (tree : ParseTree) : Prop where
  /-- Leaves lie in the text, between two characters each, and are what it holds there. -/
  leaf : ∀ leaf ∈ tree.leaves, leaf.span.Within text start stop ∧
    text.slice leaf.span.start leaf.span.stop = leaf.text
  /-- Each leaf stands behind exactly what may be skipped where the one before ends. -/
  tiles : grammar.Tiles text start tree.leaves stop
  /-- Nothing is lost. -/
  slice_eq : text.slice start stop = spelled text start tree.leaves
  /-- Nothing is read twice. -/
  pairwise : tree.leaves.Pairwise fun leaf later => leaf.span.stop ≤ later.span.start
  /-- The tree ends where its last leaf does. -/
  stop_eq : stop = lastStop start tree.leaves
  /-- The spans in the tree lie in the text, and none begins ahead of an earlier one. -/
  preordered : Span.Preordered text start stop tree.spans

/-- What a rule derives as a tree is tiled by it. -/
theorem Derives.tiled {index start stop : Nat} {tree : ParseTree}
    (h : grammar.Derives text index start stop tree) (hstart : text.IsBoundary start) :
    grammar.Tiled text start stop tree := by
  have htiles : grammar.Tiles text start tree.leaves stop := by simpa using Yields.tiles h
  have hstop : text.IsBoundary stop := Yields.isBoundary h hstart
  exact
    { leaf := fun leaf hleaf => ⟨htiles.within leaf hleaf, htiles.slice_eq leaf hleaf⟩
      tiles := htiles
      slice_eq := htiles.slice_eq_spelled hstart hstop
      pairwise := htiles.pairwise
      stop_eq := htiles.stop_eq
      preordered := by simpa using Yields.preordered h hstart }

/-- For every compiled grammar and every text: the tree of a text that matches tiles it from its
start up to where only what may be skipped is left, and each tree that is found in a text tiles it
from the place where it was tried up to its end. -/
theorem tiled_of_compile {description : Text} {grammar : Grammar}
    (h : compile description = .ok grammar) (text : Text) :
    (∀ tree, grammar.matchExact text = some tree → ∃ stop,
      grammar.Tiled text 0 stop tree ∧
        grammar.behindSkipped text (lastStop 0 tree.leaves) = Text.size text) ∧
    ∀ tree ∈ grammar.findAll text, ∃ start stop, text.IsBoundary start ∧ start < stop ∧
      ((grammar.chart text).seek start).longest? = some (tree, stop) ∧
        grammar.Tiled text start stop tree := by
  have hcompiled := compiled_of_compile h
  refine ⟨fun tree htree => ?_, fun tree htree => ?_⟩
  · obtain ⟨stop, hderives, hskips, -⟩ := hcompiled.matchExact_eq_some htree
    have htiled := hderives.tiled text.isBoundary_zero
    refine ⟨stop, htiled, ?_⟩
    have hstop := Yields.isBoundary hderives text.isBoundary_zero
    rw [← htiled.stop_eq, ← skippedOffset_seek hstop]
    exact (skippedOffset_seek_eq_size_iff hstop).2 hskips
  · obtain ⟨found, hscans, hfindAll⟩ := hcompiled.exists_scans_findAll text
    rw [hfindAll] at htree
    obtain ⟨m, hm, rfl⟩ := List.mem_map.1 htree
    have hlongest := (hscans.longest m hm).2
    exact ⟨m.span.start, m.span.stop, hlongest.isBoundary, hlongest.lt,
      (hcompiled.longest?_eq_some_iff hlongest.isBoundary).2 hlongest,
      hlongest.derives.tiled hlongest.isBoundary⟩

/-- Words with a part ahead of them that may be absent. -/
def optionalParts : Text := "s = [ \"x\" ] { w } IDENT; w = \"a\";".toList

/-- A tree with an absent part and with blanks ahead of, between and behind its leaves tiles the
text, and so does one that is found in it. -/
theorem tiled_of_compile_optionalParts :
    ∃ grammar tree found, compile optionalParts = .ok grammar ∧
      grammar.matchExact [' ', 'a', ' ', 'b', ' '] = some tree ∧
      found ∈ grammar.findAll [' ', 'a', ' ', 'b', ' '] ∧
      (∃ stop, grammar.Tiled [' ', 'a', ' ', 'b', ' '] 0 stop tree) ∧
      ∃ start stop, start < stop ∧
        grammar.Tiled [' ', 'a', ' ', 'b', ' '] start stop found := by
  have hmatches : (compile optionalParts).toOption.any (fun grammar =>
      (grammar.matchExact [' ', 'a', ' ', 'b', ' ']).isSome &&
        !(grammar.findAll [' ', 'a', ' ', 'b', ' ']).isEmpty) = true := by
    decide +kernel
  obtain ⟨grammar, hgrammar, hmatch⟩ := (Option.any_eq_true ..).1 hmatches
  obtain ⟨hmatch, hfind⟩ := (Bool.and_eq_true ..).mp hmatch
  obtain ⟨tree, htree⟩ := Option.isSome_iff_exists.1 hmatch
  obtain ⟨found, hfound⟩ := List.exists_mem_of_ne_nil
    (grammar.findAll [' ', 'a', ' ', 'b', ' ']) (by simpa using hfind)
  have hcompile := Except.toOption_eq_some.1 hgrammar
  obtain ⟨hexact, hall⟩ := tiled_of_compile hcompile [' ', 'a', ' ', 'b', ' ']
  obtain ⟨stop, htiled, -⟩ := hexact tree htree
  obtain ⟨start, stop', -, hlt, -, htiled'⟩ := hall found hfound
  exact ⟨grammar, tree, found, hcompile, htree, hfound, ⟨stop, htiled⟩, start, stop', hlt, htiled'⟩

end Grammar

end Retrace
