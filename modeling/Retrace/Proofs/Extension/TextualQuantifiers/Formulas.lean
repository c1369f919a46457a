import Retrace.Proofs.Extension.TextualQuantifiers.Scanned
import Retrace.Proofs.Phase.About

/-!
# Formulas without keywords

The phase replaces the keywords in all formulas. What it leaves in a formula is a text without
keywords (`exists_turns_occurrencesIn`), so running the phase again changes nothing
(`settles_phase`).
-/

namespace Retrace.TextualQuantifiers

open Grammar

/-! ## Replacing all keywords -/

/-- Put the operator in place of the keyword. -/
def Occurrence.patch (occurrence : Occurrence) : Patch :=
  ⟨occurrence.span, occurrence.keyword.operator.toList⟩

/-- Replacing the keywords among some pieces gives the text with the operators. -/
theorem Piece.turns (offset : Nat) (pieces : List Piece) :
    Patch.Turns ((occurrences offset pieces).map Occurrence.patch) offset (source pieces)
      (target pieces) := by
  induction pieces generalizing offset with
  | nil => exact .keep []
  | cons piece later ih =>
    cases piece with
    | kept c =>
      have hlater : Patch.Turns ((occurrences (offset + c.utf8Size) later).map Occurrence.patch)
          (offset + Text.size [c]) (source later) (target later) := by
        rw [Text.size_cons, Text.size_nil, Nat.add_zero]
        exact ih _
      exact hlater.prepend
    | keyword body found => exact .replace [] body _ rfl rfl (ih _)

/-- Once the keywords in a text are replaced, it contains none. -/
theorem exists_turns_occurrencesIn (text : Text) :
    ∃ cleared, Patch.Turns ((occurrencesIn text).map Occurrence.patch) 0 text cleared ∧
      occurrencesIn cleared = [] := by
  obtain ⟨pieces, -, rfl, hfound, hcleared⟩ := exists_isScan_occurrencesIn text
  exact ⟨Piece.target pieces, by rw [hfound]; exact Piece.turns 0 pieces, hcleared⟩

/-! ## The handler -/

/-- The edits of the handler are those that replace the keywords. -/
theorem forM_occurrences (occurrences : List Occurrence) :
    (forM occurrences fun occurrence =>
        Handling.replace occurrence.span occurrence.keyword.operator.toList .discarded :
        Handling Unit Unit) =
      forM (occurrences.map Occurrence.patch) fun patch =>
        Handling.replace patch.span patch.text .discarded := by
  induction occurrences with
  | nil => rfl
  | cons first later ih =>
    rw [List.map_cons, List.forM_cons, List.forM_cons, ih]
    rfl

/-- The handler leaves a text without keywords, and it leaves such a text alone. -/
theorem exists_carryOut_reviseFormula {visit : Visit} {text : Text}
    (htext : visit.text? = some text) :
    ∃ diagnostics revised?, (reviseFormula visit).carryOut visit () none =
        ((.ok diagnostics, ()), revised?) ∧
      occurrencesIn ((revised?.map Revision.current).getD text) = [] ∧
      (occurrencesIn text = [] → revised? = none) := by
  obtain ⟨cleared, hturns, hcleared⟩ := exists_turns_occurrencesIn text
  obtain ⟨revised?, hrun, rfl⟩ :=
    Handling.exists_carryOut_of_turns_text htext hturns .discarded ()
  refine ⟨(secondQuantifier? (occurrencesIn text)).toList.map fun span =>
    { visit.diagnostic span secondQuantifierMessage with context := String.ofList text },
    revised?, ?_, hcleared, fun hnone => ?_⟩
  · rw [← forM_occurrences] at hrun
    unfold reviseFormula
    rw [htext]
    exact Handling.carryOut_bind _ hrun
  · rw [hnone] at hrun
    exact (Prod.mk.inj hrun).2.symm

/-- What the handler has to say is about its element. -/
theorem path_of_carryOut_reviseFormula {visit : Visit} {state state' : Unit}
    {revision? revised? : Option Revision} {diagnostics : List Diagnostic}
    (h : (reviseFormula visit).carryOut visit state revision? =
      ((.ok diagnostics, state'), revised?)) :
    ∀ diagnostic ∈ diagnostics, diagnostic.path = visit.address := by
  unfold reviseFormula at h
  split at h
  · obtain rfl := Except.ok.inj (Prod.mk.inj (Prod.mk.inj h).1).1
    exact nofun
  · obtain ⟨_, _, _, -, h⟩ := Handling.exists_of_carryOut_bind h
    obtain rfl := Except.ok.inj (Prod.mk.inj (Prod.mk.inj h).1).1
    intro diagnostic hdiagnostic
    obtain ⟨span, -, rfl⟩ := List.mem_map.1 hdiagnostic
    rfl

/-- The only handler looks at the text of its element only. -/
theorem about_phase : phase.About .formula where
  isLocal := by
    intro registration hmem _
    obtain rfl := List.mem_singleton.1 hmem
    refine ⟨fun {visit visit'} _ hpath htext => ?_, path_of_carryOut_reviseFormula⟩
    have hdiagnostic (span : Span) (message : String) :
        visit'.diagnostic span message = visit.diagnostic span message := by
      rw [Visit.diagnostic, htext, Visit.address, hpath]
      rfl
    show reviseFormula visit' = reviseFormula visit
    unfold reviseFormula
    simp only [htext, hdiagnostic]
  exists_changing := by
    intro registration hmem hkind
    obtain rfl := List.mem_singleton.1 hmem
    exact absurd rfl hkind

/-- The handler is called for formulas of queries. -/
theorem registered_eq (model : Model) (node : NodeId) (path : Path) :
    Phase.registered model phase.enter node path ++ Phase.registered model phase.leave node path =
      if Registration.fits ⟨.formula, [.query, .formula], reviseFormula⟩ (model.kind node) path
      then [⟨⟨model, node, path⟩, reviseFormula⟩] else [] := by
  show (List.filter _ [(⟨.formula, [.query, .formula], reviseFormula⟩ : Registration Unit)]).map
    _ ++ [] = _
  rw [List.append_nil, List.filter_cons, List.filter_nil]
  split <;> rfl

/-- Once the keywords in all formulas were replaced, nothing is left to be replaced. -/
theorem settles_phase : phase.Settles .formula := by
  intro model after outcome later blocked hmodel hrun hcommit _ hagain
  have hcommitted := (Phase.run_describes hmodel hrun).committed hmodel hcommit
  have hafter := hcommitted.wellFormed hmodel
  refine Phase.layer_eq_empty_of_run hagain fun {front made back progress diagnostics state
    revised?} hcalls _ hcarryOut => ?_
  have hmem : made ∈ phase.calls after blocked := by
    rw [hcalls]
    simp
  obtain ⟨-, hat, hopen⟩ := Phase.at_of_mem_calls hmem
  -- The same handler is called for the element in both runs.
  have hmade : made ∈ (phase.calls after blocked).filter (·.visit.node = made.visit.node) :=
    List.mem_filter.2 ⟨hmem, by simp⟩
  rw [Phase.filter_calls hafter hat hopen, registered_eq] at hmade
  split at hmade
  · rename_i hfits
    rw [hcommitted.kind_eq] at hfits
    rw [List.mem_singleton.1 hmade] at hcarryOut
    have hbefore : model.At made.visit.node made.visit.path := hcommitted.at_before hat
    generalize made.visit.node = node at hfits hcarryOut hbefore
    generalize made.visit.path = path at hfits hcarryOut hbefore
    have hkind : model.kind node = .formula := (Registration.kind_eq_of_fits hfits).symm
    obtain ⟨text, htext⟩ := hmodel.exists_text (by rw [hkind]; rfl)
    obtain ⟨_, _, _, _, _, edited?, -, -, hedited, hsettled⟩ :=
      Phase.exists_carryOut_of_run hmodel hrun hcommit hbefore List.not_mem_nil
        (by rw [registered_eq, if_pos hfits]) htext
    have hvisit : Visit.text? ⟨model, node, path⟩ = some text := htext
    obtain ⟨_, cleared?, hrevise, hcleared, -⟩ := exists_carryOut_reviseFormula hvisit
    rw [hrevise] at hedited
    obtain rfl := (Prod.mk.inj hedited).2
    have hvisit' : Visit.text? ⟨after, node, path⟩ = _ := hsettled
    obtain ⟨_, again?, hrevise', -, hidle⟩ := exists_carryOut_reviseFormula hvisit'
    rw [hidle hcleared] at hrevise'
    rw [hrevise'] at hcarryOut
    exact (Prod.mk.inj hcarryOut).2.symm
  · cases hmade

end Retrace.TextualQuantifiers
