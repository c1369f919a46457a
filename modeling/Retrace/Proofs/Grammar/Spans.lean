import Retrace.Proofs.Grammar.Derivation
import Retrace.Proofs.Text.Span

/-!
# Where the parts of a tree lie

A tree is derived between two offsets of a text, and the spans of all its parts lie between these
offsets, begin and end between two characters and are never reversed. A group without a leaf has a
span as well: it is empty and lies where the group was tried, ahead of what may be skipped.

## Main definitions

* `ParseTree.Part`: the trees inside a tree;
* `ParseTree.Within`: all parts of a tree lie between two offsets.

## Main results

* `Grammar.Yields.within`: the parts of what is derived lie where it is derived;
* `ParseTree.part_of_mem_findAll`: what is found in a tree by its rule is a part of it.
-/

namespace Retrace

/-- What covers the children of a node lies where they lie. -/
theorem Span.Within.coverSpan {text : Text} {start stop : Nat} {children : List (Option ParseTree)}
    (hle : start ≤ stop) (hstart : text.IsBoundary start)
    (h : ∀ tree, some tree ∈ children → tree.span.Within text start stop) :
    (coverSpan children start).Within text start stop := by
  -- Only children that matched count; without any, the span is the point where they were tried.
  have hspans : ∀ span ∈ children.filterMap fun child => child.map ParseTree.span,
      span.Within text start stop := by
    intro span hspan
    obtain ⟨child, hchild, hmap⟩ := List.mem_filterMap.1 hspan
    obtain ⟨tree, rfl, rfl⟩ := Option.map_eq_some_iff.1 hmap
    exact h tree hchild
  unfold Retrace.coverSpan
  generalize children.filterMap (fun child => child.map ParseTree.span) = spans at hspans
  cases spans with
  | nil => exact .point hle hstart
  | cons first others =>
    obtain ⟨hfirst, hothers⟩ := List.forall_mem_cons.1 hspans
    exact hfirst.foldl_cover hothers

namespace ParseTree

/-- The trees inside a tree, itself included. -/
inductive Part : ParseTree → ParseTree → Prop
  | self (tree : ParseTree) : Part tree tree
  | child {rule : Option String} {children : List (Option ParseTree)} {span : Span}
      {child part : ParseTree} : some child ∈ children → Part child part →
      Part (.node rule children span) part

mutual

theorem part_of_mem_nodesOnto {rule : String} {behind : List ParseTree} {found : ParseTree} :
    (tree : ParseTree) → found ∈ tree.nodesOnto rule behind → tree.Part found ∨ found ∈ behind
  | .leaf _, h => Or.inr h
  | .node name children span, h => by
    rw [nodesOnto] at h
    split at h
    · rcases List.mem_cons.1 h with rfl | h
      · exact Or.inl (.self _)
      · exact (part_of_mem_nodesOntoAll children h).imp_left fun ⟨_, hchild, hpart⟩ =>
          .child hchild hpart
    · exact (part_of_mem_nodesOntoAll children h).imp_left fun ⟨_, hchild, hpart⟩ =>
        .child hchild hpart

theorem part_of_mem_nodesOntoAll {rule : String} {behind : List ParseTree} {found : ParseTree} :
    (children : List (Option ParseTree)) → found ∈ nodesOntoAll rule behind children →
      (∃ child, some child ∈ children ∧ child.Part found) ∨ found ∈ behind
  | [], h => Or.inr h
  | none :: others, h =>
    (part_of_mem_nodesOntoAll others h).imp_left fun ⟨child, hchild, hpart⟩ =>
      ⟨child, List.mem_cons_of_mem _ hchild, hpart⟩
  | some tree :: others, h => by
    rcases part_of_mem_nodesOnto tree h with hpart | h
    · exact Or.inl ⟨tree, List.mem_cons_self, hpart⟩
    · exact (part_of_mem_nodesOntoAll others h).imp_left fun ⟨child, hchild, hpart⟩ =>
        ⟨child, List.mem_cons_of_mem _ hchild, hpart⟩

end

/-- The nodes of a rule in a tree are parts of it. -/
theorem part_of_mem_findAll {tree found : ParseTree} {rule : String}
    (h : found ∈ tree.findAll rule) : tree.Part found :=
  (part_of_mem_nodesOnto tree h).resolve_right List.not_mem_nil

theorem part_of_find? {tree found : ParseTree} {rule : String}
    (h : tree.find? rule = some found) : tree.Part found :=
  part_of_mem_findAll (List.mem_of_head? h)

/-- All parts of a tree lie between two offsets of a text. -/
def Within (text : Text) (start stop : Nat) (tree : ParseTree) : Prop :=
  ∀ part, tree.Part part → part.span.Within text start stop

namespace Within

variable {text : Text} {start stop : Nat} {tree : ParseTree}

theorem mono (h : tree.Within text start stop) {start' stop' : Nat} (hstart : start' ≤ start)
    (hstop : stop ≤ stop') : tree.Within text start' stop' :=
  fun part hpart => (h part hpart).mono hstart hstop

theorem leaf {found : Leaf} (h : found.span.Within text start stop) :
    (ParseTree.leaf found).Within text start stop := by
  intro part hpart
  cases hpart
  exact h

/-- A node lies where its children lie. -/
theorem node {rule : Option String} {children : List (Option ParseTree)} (hle : start ≤ stop)
    (hstart : text.IsBoundary start)
    (h : ∀ tree, some tree ∈ children → tree.Within text start stop) :
    (ParseTree.node rule children (coverSpan children start)).Within text start stop := by
  intro part hpart
  cases hpart with
  | self => exact .coverSpan hle hstart fun tree htree => h tree htree tree (.self tree)
  | child hchild hpart => exact h _ hchild part hpart

/-- A group lies where its items lie. -/
theorem groupItems {items : List (Option ParseTree)} (hle : start ≤ stop)
    (hstart : text.IsBoundary start)
    (h : ∀ tree, some tree ∈ items → tree.Within text start stop) :
    (groupItems items start).Within text start stop := by
  unfold Retrace.groupItems
  split
  · rename_i tree
    exact h tree List.mem_cons_self
  · exact .node hle hstart h

end Within

end ParseTree

namespace Grammar

variable {grammar : Grammar} {text : Text}

/-- A word stands between two characters, behind what was skipped. -/
theorem Stands.within {front gap word back : Text}
    (h : grammar.Stands text front gap word back) :
    (Span.mk (Text.size (front ++ gap)) (Text.size (front ++ (gap ++ word)))).Within text
      (Text.size front) (Text.size (front ++ (gap ++ word))) where
  start_le := by simp only [Text.size_append]; omega
  le := by simp only [Text.size_append]; omega
  le_stop := Nat.le_refl _
  isBoundary_start := Text.isBoundary_iff.2 ⟨front ++ gap, word ++ back, by
    rw [h.text_eq, List.append_assoc], rfl⟩
  isBoundary_stop := Text.isBoundary_iff.2 ⟨front ++ (gap ++ word), back, by
    rw [h.text_eq, List.append_assoc, List.append_assoc], rfl⟩

/-- The parts of what is derived lie between the offsets between which it is derived. -/
theorem Yields.within {form : Form} {start stop : Nat} {children : List (Option ParseTree)}
    (h : grammar.Yields text form start stop children) (hstart : text.IsBoundary start) :
    ∀ tree, some tree ∈ children → tree.Within text start stop := by
  -- Terminals, rules, groups and repetitions are each derived as a single tree.
  have hsingle {start stop : Nat} {tree : ParseTree} (htree : tree.Within text start stop) :
      ∀ other, some other ∈ [some tree] → other.Within text start stop := by
    intro other hother
    obtain rfl := Option.some.inj (List.mem_singleton.1 hother)
    exact htree
  induction h with
  | literal hstands => exact hsingle (.leaf hstands.within)
  | token _ _ _ hstands => exact hsingle (.leaf hstands.within)
  | rule _ hbody ih => exact hsingle (.node hbody.le hstart (ih hstart))
  | seq _ ih => exact ih hstart
  | either _ _ ih => exact ih hstart
  | absent =>
    intro tree htree
    cases List.mem_singleton.1 htree
  | present hbody ih => exact hsingle (.groupItems hbody.le hstart (ih hstart))
  | loop hrounds ih => exact hsingle (.node hrounds.le hstart (ih hstart))
  | noItem => exact fun tree htree => (List.not_mem_nil htree).elim
  | item hfirst hlater ihfirst ihlater =>
    intro tree htree
    rcases List.mem_append.1 htree with htree | htree
    · exact (ihfirst hstart tree htree).mono (Nat.le_refl _) hlater.le
    · exact (ihlater (hfirst.isBoundary hstart) tree htree).mono hfirst.le (Nat.le_refl _)
  | noRound => exact fun tree htree => (List.not_mem_nil htree).elim
  | round hfirst hlater ihfirst ihlater =>
    intro tree htree
    rcases List.mem_cons.1 htree with htree | htree
    · obtain rfl := Option.some.inj htree
      exact (ParseTree.Within.groupItems hfirst.le hstart (ihfirst hstart)).mono (Nat.le_refl _)
        hlater.le
    · exact (ihlater (hfirst.isBoundary hstart) tree htree).mono hfirst.le (Nat.le_refl _)

end Grammar

end Retrace
