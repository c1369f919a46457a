/-!
# Sets of end offsets

The places where an expression can end are kept as an ascending list of byte offsets.
-/

namespace Retrace.Ends

/-- Add an offset to an ascending list. -/
def insert (offset : Nat) : List Nat → List Nat
  | [] => [offset]
  | other :: others =>
    if offset < other then offset :: other :: others
    else if offset = other then other :: others
    else other :: insert offset others

/-- All offsets of either list, ascending. -/
def union (offsets others : List Nat) : List Nat :=
  offsets.foldr insert others

theorem mem_insert {offset other : Nat} {offsets : List Nat} :
    other ∈ insert offset offsets ↔ other = offset ∨ other ∈ offsets := by
  induction offsets with
  | nil => simp [insert]
  | cons first rest ih =>
    simp only [insert]
    split
    · simp
    · split
      · rename_i h; subst h; simp
      · simp [ih]; grind

theorem mem_union {offset : Nat} {offsets others : List Nat} :
    offset ∈ union offsets others ↔ offset ∈ offsets ∨ offset ∈ others := by
  induction offsets with
  | nil => simp [union]
  | cons first rest ih =>
    rw [show union (first :: rest) others = insert first (union rest others) from rfl,
      mem_insert, ih, List.mem_cons, or_assoc]

theorem pairwise_insert {offset : Nat} {offsets : List Nat} (h : offsets.Pairwise (· < ·)) :
    (insert offset offsets).Pairwise (· < ·) := by
  induction offsets with
  | nil => simp [insert]
  | cons first rest ih =>
    obtain ⟨hfirst, hrest⟩ := List.pairwise_cons.1 h
    simp only [insert]
    split
    · refine List.pairwise_cons.2 ⟨fun other hother => ?_, h⟩
      rcases List.mem_cons.1 hother with rfl | hmem
      · assumption
      · exact Nat.lt_trans ‹_› (hfirst other hmem)
    · split
      · exact h
      · refine List.pairwise_cons.2 ⟨fun other hother => ?_, ih hrest⟩
        rcases mem_insert.1 hother with rfl | hmem
        · omega
        · exact hfirst _ hmem

/-- A union is ascending if the list that is added to is. -/
theorem pairwise_union {offsets others : List Nat} (h : others.Pairwise (· < ·)) :
    (union offsets others).Pairwise (· < ·) := by
  induction offsets with
  | nil => exact h
  | cons first rest ih => exact pairwise_insert ih

end Retrace.Ends
