import Retrace.Extension.ArrayInit
import Retrace.Proofs.Grammar.Compile
import Retrace.Proofs.Grammar.Scan
import Retrace.Proofs.Phase.Success

/-!
# Expanding array initialisers never fails

The values of the array declarations in a text lie one behind the other, because every declaration
is derived behind the one before and its value is a part of it. Repeating them is therefore never
refused, whichever of them are repeated, and the phase succeeds for every model
(`ArrayInit.reliable_phase`).
-/

namespace Retrace.ArrayInit

/-- The grammar of array declarations is one that was compiled. -/
theorem compiled_arrays : arrays.Compiled :=
  Grammar.compiled_getD (by decide +kernel)

/-- The size and the value of a declaration are parts of its tree. -/
theorem exists_part_of_declarationOf? {tree : ParseTree} {declaration : Declaration}
    (h : declarationOf? tree = some declaration) :
    (∃ part, tree.Part part ∧ part.span = declaration.size) ∧
      ∃ part, tree.Part part ∧ part.span = declaration.value := by
  obtain ⟨size, hsize, h⟩ := Option.bind_eq_some_iff.1 h
  obtain ⟨value, hvalue, h⟩ := Option.bind_eq_some_iff.1 h
  obtain rfl := Option.some.inj h
  exact ⟨⟨size, ParseTree.part_of_find? hsize, rfl⟩, value, ParseTree.part_of_find? hvalue, rfl⟩

/-- The values of the declarations in a text lie one behind the other. -/
theorem ascending_values (text : Text) :
    Span.Ascending text ((declarationsIn text).map Declaration.value) :=
  ((compiled_arrays.finds_findAll text).ascending fun h => (exists_part_of_declarationOf? h).2).2

/-- So do their sizes. -/
theorem ascending_sizes (text : Text) :
    Span.Ascending text ((declarationsIn text).map Declaration.size) :=
  ((compiled_arrays.finds_findAll text).ascending fun h => (exists_part_of_declarationOf? h).1).2

/-- The declarations come with what comes of them in the same order. -/
theorem map_fst_verdictsIn (text : Text) (scopes : Scopes) :
    (verdictsIn text scopes).map Prod.fst = declarationsIn text := by
  rw [verdictsIn, List.map_map]
  exact List.map_id _

/-- Expanding the declarations in a text that was not edited succeeds. -/
theorem succeeds_expand (visit : Visit) :
    Handling.Succeeds visit (· = none) (expand visit) fun _ => True := by
  unfold expand
  split
  · exact (Handling.succeeds_pure _).mono (fun _ h => h) fun _ _ => trivial
  · rename_i text htext
    refine Handling.succeeds_bind Handling.succeeds_get fun scopes => ?_
    have hspans : Span.Ascending text
        ((verdictsIn text scopes).map fun entry => entry.1.value) := by
      have hvalues := ascending_values text
      rwa [← map_fst_verdictsIn text scopes, List.map_map] at hvalues
    refine Handling.succeeds_bind (Handling.succeeds_forM_of_none htext hspans fun entry => ?_)
      fun _ => Handling.succeeds_bind (Handling.succeeds_modify _) fun _ =>
        Handling.succeeds_pure _
    -- Only values that are repeated are replaced.
    cases hvalue : expansion? text entry.1 entry.2 with
    | none => exact Or.inl (by simp only [hvalue])
    | some value => exact Or.inr ⟨value, .anchored, by simp only [hvalue]⟩

/-- No handler of the phase fails. -/
theorem reliable_phase : phase.Reliable where
  enter registration hmem visit := by
    rcases List.mem_cons.1 hmem with rfl | hmem
    · exact Handling.succeeds_bind ((Handling.succeeds_modify _).mono (fun _ _ => trivial)
        fun _ h => h) fun _ => Handling.succeeds_pure _
    · obtain rfl := List.mem_singleton.1 hmem
      exact succeeds_expand visit
  nodup_kinds := by decide
  leave registration hmem visit := by
    obtain rfl := List.mem_singleton.1 hmem
    exact Handling.succeeds_bind (Handling.succeeds_modify _) fun _ => Handling.succeeds_pure _

end Retrace.ArrayInit
