import Retrace.Proofs.Grammar.Leftmost
import Retrace.Proofs.Grammar.Spans

/-!
# Matches in a larger text

A text is scanned from left to right. Every match that is found is derived by the top rule and reads
something, and the search goes on where it ends, so the matches are derived one behind the other and
whatever is read off them lies in the text in ascending order.

## Main definitions

* `Grammar.Finds`: matches are derived one behind the other.

## Main results

* `Grammar.Compiled.finds_findAll`: what is found in a text is derived there;
* `Grammar.Finds.ascending`: spans that are read off matches do not overlap.
-/

namespace Retrace.Grammar

/-- Trees are derived by the top rule, one behind the other, from an offset on. -/
inductive Finds (grammar : Grammar) (text : Text) : (resume : Nat) → List ParseTree → Prop
  | nil (resume : Nat) : Finds grammar text resume []
  | cons {resume start stop : Nat} {tree : ParseTree} {later : List ParseTree} : resume ≤ start →
      text.IsBoundary start → start < stop → grammar.Derives text 0 start stop tree →
      Finds grammar text stop later → Finds grammar text resume (tree :: later)

variable {grammar : Grammar} {text : Text}

namespace Finds

variable {α : Type} {resume : Nat} {trees : List ParseTree}

/-- The search may as well have begun earlier. -/
theorem mono (h : grammar.Finds text resume trees) {first : Nat} (hle : first ≤ resume) :
    grammar.Finds text first trees := by
  cases h with
  | nil => exact .nil first
  | cons hresume hstart hlt hderives hlater =>
    exact .cons (Nat.le_trans hle hresume) hstart hlt hderives hlater

/-- What is read off each match has a span that belongs to a part of it. -/
def Reads (read : ParseTree → Option α) (span : α → Span) : Prop :=
  ∀ {tree found}, read tree = some found → ∃ part, tree.Part part ∧ part.span = span found

/-- The spans of what is read off matches lie in the text, one behind the other, and not ahead of
where the search began. -/
theorem ascending (h : grammar.Finds text resume trees) {read : ParseTree → Option α}
    {span : α → Span} (hread : Reads read span) :
    (∀ found ∈ trees.filterMap read, resume ≤ (span found).start) ∧
      Span.Ascending text ((trees.filterMap read).map span) := by
  induction h with
  | nil resume => exact ⟨fun _ hmem => (List.not_mem_nil hmem).elim, .nil text⟩
  | @cons resume start stop tree later hresume hstart hlt hderives hlater ih =>
    obtain ⟨hbehind, hascending⟩ := ih
    cases hfound : read tree with
    | none =>
      rw [List.filterMap_cons_none hfound]
      exact ⟨fun found hmem => by have hle := hbehind found hmem; omega, hascending⟩
    | some found =>
      obtain ⟨part, hpart, hspan⟩ := hread hfound
      -- The match lies ahead of the others, and so does each part of it.
      have hwithin : (span found).Within text start stop :=
        hspan ▸ hderives.within hstart tree List.mem_cons_self part hpart
      have hsize : stop ≤ Text.size text := (hderives.isBoundary hstart).le_size
      rw [List.filterMap_cons_some hfound, List.forall_mem_cons, List.map_cons,
        Span.Ascending.cons_iff, List.forall_mem_map]
      refine ⟨⟨Nat.le_trans hresume hwithin.start_le, fun other hmem => ?_⟩,
        hwithin.mono (Nat.zero_le _) hsize, fun other hmem => ?_, hascending⟩
      · have hle := hbehind other hmem
        omega
      · exact Nat.le_trans hwithin.le_stop (hbehind other hmem)

end Finds

/-- The trees of a scan are derived one behind the other. -/
theorem Scans.finds {start : Nat} {found : List Match} (h : grammar.Scans text start found) :
    grammar.Finds text start (found.map Match.tree) := by
  induction h with
  | done => exact .nil _
  | found hlongest _ ih =>
    exact .cons (Nat.le_refl _) hlongest.isBoundary hlongest.lt hlongest.derives ih
  | next _ _ _ _ ih => exact ih.mono (Nat.le_add_right ..)

/-- What is found in a text is derived there. -/
theorem Compiled.finds_findAll (h : grammar.Compiled) (text : Text) :
    grammar.Finds text 0 (grammar.findAll text) := by
  obtain ⟨found, hscans, hfindAll⟩ := h.exists_scans_findAll text
  exact hfindAll ▸ hscans.finds

end Retrace.Grammar
