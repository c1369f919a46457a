import Retrace.Registry

/-!
# What a registry knows

Whatever order the names are kept in, a registry knows what was registered and nothing else, and it
finds an extension under each of its names.
-/

namespace Retrace.Registry

variable {id : String} {extension : Extension} {registry : Registry}
  {entry : String × Extension}

theorem mem_insert {entries : List (String × Extension)} (h : entry ∈ insert id extension entries) :
    entry = (id, extension) ∨ entry ∈ entries := by
  induction entries with
  | nil => exact Or.inl (List.mem_singleton.1 h)
  | cons first later ih =>
    rw [insert] at h
    split at h
    · exact List.mem_cons.1 h
    · rcases List.mem_cons.1 h with rfl | h
      · exact Or.inr List.mem_cons_self
      · exact (ih h).imp_right (List.mem_cons_of_mem _)

/-- What is registered besides what was known before is among the extensions given. -/
theorem mem_registerAll {extensions : List Extension}
    (h : entry ∈ (registerAll extensions registry).1.entries) :
    entry ∈ registry.entries ∨ ∃ extension ∈ extensions, entry = (extension.id, extension) := by
  induction extensions generalizing registry with
  | nil => exact Or.inl h
  | cons extension later ih =>
    rw [registerAll] at h
    split at h
    · rename_i registered hregister
      rcases ih h with h | ⟨other, hother, heq⟩
      · unfold register at hregister
        split at hregister
        · cases hregister
        · obtain rfl := Except.ok.inj hregister
          rcases mem_insert h with rfl | h
          · exact Or.inr ⟨extension, List.mem_cons_self, rfl⟩
          · exact Or.inl h
      · exact Or.inr ⟨other, List.mem_cons_of_mem _ hother, heq⟩
    · -- The first extension whose name is taken ends the registration.
      exact Or.inl h

/-- An extension is found under each of the names. -/
theorem exists_find (h : id ∈ registry.ids) :
    ∃ extension, registry.find id = .ok extension ∧ (id, extension) ∈ registry.entries := by
  have hsome : registry.entries.lookup id ≠ none := by
    intro hnone
    obtain ⟨entry, hentry, rfl⟩ := List.mem_map.1 h
    simpa using List.lookup_eq_none_iff.1 hnone entry hentry
  obtain ⟨extension, hlookup⟩ := Option.ne_none_iff_exists'.1 hsome
  obtain ⟨front, back, hentries, -⟩ := List.lookup_eq_some_iff.1 hlookup
  refine ⟨extension, by rw [find, hlookup], ?_⟩
  rw [hentries]
  simp

end Retrace.Registry
