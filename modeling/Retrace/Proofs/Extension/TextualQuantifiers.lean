import Retrace.Extension.TextualQuantifiers
import Retrace.Proofs.Grammar.Compile
import Retrace.Proofs.Grammar.Scan
import Retrace.Proofs.Phase.Success

/-!
# Replacing textual quantifiers never fails

The keywords in a text lie one behind the other, so replacing all of them is never refused. This
holds for the formulas of a model, where the edits are asked for by a handler, and for queries,
where they are made directly.

## Main results

* `TextualQuantifiers.reliable_phase`: the phase succeeds for every model;
* `TextualQuantifiers.exists_reviseQuery`: every query is revised or left alone.
-/

namespace Retrace.TextualQuantifiers

/-- The grammar of keywords is one that was compiled. -/
theorem compiled_grammar : grammar.Compiled :=
  Grammar.compiled_getD (by decide +kernel)

/-- A keyword stands where its tree does. -/
theorem span_of_occurrenceOf? {tree : ParseTree} {occurrence : Occurrence}
    (h : occurrenceOf? tree = some occurrence) : tree.span = occurrence.span := by
  obtain ⟨keyword, -, rfl⟩ := Option.map_eq_some_iff.1 h
  rfl

/-- The keywords in a text lie one behind the other. -/
theorem ascending_occurrencesIn (text : Text) :
    Span.Ascending text ((occurrencesIn text).map Occurrence.span) :=
  ((compiled_grammar.finds_findAll text).ascending fun {tree _} h =>
    ⟨tree, .self tree, span_of_occurrenceOf? h⟩).2

/-- Replacing the keywords in a formula that was not edited succeeds. -/
theorem succeeds_reviseFormula (visit : Visit) :
    Handling.Succeeds visit (· = none) (reviseFormula visit) fun _ => True := by
  unfold reviseFormula
  split
  · exact (Handling.succeeds_pure _).mono (fun _ h => h) fun _ _ => trivial
  · rename_i text htext
    exact Handling.succeeds_bind (Handling.succeeds_forM_of_none htext
      (ascending_occurrencesIn text) fun _ => Or.inr ⟨_, _, rfl⟩) fun _ =>
        Handling.succeeds_pure _

/-- No handler of the phase fails. -/
theorem reliable_phase : phase.Reliable where
  enter registration hmem visit := by
    obtain rfl := List.mem_singleton.1 hmem
    exact succeeds_reviseFormula visit
  nodup_kinds := by decide
  leave registration hmem := (List.not_mem_nil hmem).elim

/-- Keywords that lie one behind the other, behind all earlier edits, can all be replaced. -/
theorem exists_replaceAll {text : Text} {occurrences : List Occurrence} {revision : Revision}
    {offset : Nat} (hspans : Span.Ascending text (occurrences.map Occurrence.span))
    (hbehind : ∀ occurrence ∈ occurrences, offset ≤ occurrence.span.start)
    (hrevision : revision.UpTo text offset) :
    ∃ revised, replaceAll occurrences revision = .ok revised := by
  induction occurrences generalizing revision offset with
  | nil => exact ⟨revision, rfl⟩
  | cons first later ih =>
    obtain ⟨hfirst, -⟩ := List.forall_mem_cons.1 hbehind
    rw [List.map_cons, Span.Ascending.cons_iff, List.forall_mem_map] at hspans
    obtain ⟨hspan, hstop, hspans⟩ := hspans
    have hrange : first.span.Within text offset (Text.size text) :=
      { hspan with start_le := hfirst }
    obtain ⟨revised, hreplace, hrevised⟩ :=
      hrevision.exists_replace hrange first.keyword.operator.toList .discarded
    obtain ⟨last, hlast⟩ := ih hspans hstop hrevised
    refine ⟨last, ?_⟩
    rw [replaceAll, List.foldlM_cons, hreplace]
    exact hlast

/-- Every query is revised or left alone. -/
theorem exists_reviseQuery (query : Text) : ∃ revised?, reviseQuery query = .ok revised? := by
  obtain ⟨revision, hrevision⟩ := exists_replaceAll (ascending_occurrencesIn query)
    (fun _ _ => Nat.zero_le _) (.ofText query 0)
  unfold reviseQuery
  dsimp only
  rw [hrevision]
  dsimp only
  split
  · exact ⟨_, rfl⟩
  · exact ⟨none, rfl⟩

end Retrace.TextualQuantifiers
