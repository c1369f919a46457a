import Retrace.Proofs.Text.Run

/-!
# The first occurrence of a needle

`Text.find?` gives the byte offset at which `Text.cut?` cuts: the size of the text in which the
needle does not begin. The offset alone does not say that the needle cannot begin in such a text and
end behind it. It cannot if its first character does not come again in it.

## Main results

* `find?_eq_some`: a needle is found behind the text in which it does not begin;
* `find?_append_ne_none`: a needle that is there is found;
* `isBefore_of_find?_eq_none`: a text without the needle can be put in front of it.
-/

namespace Retrace.Text

variable {needle body rest text : Text} {passed : Nat} {offset : Nat} {c : Char}

@[simp] theorem size_reverse (text : Text) : size text.reverse = size text := by
  induction text with
  | nil => rfl
  | cons c rest ih => simp [ih, Nat.add_comm]

/-- A needle is found where a text is cut around it. -/
theorem findFrom_eq_map_cutInto (needle passed text : Text) :
    findFrom needle (size passed) text =
      (cutInto needle passed text).map fun found => size found.1 := by
  induction text generalizing passed with
  | nil =>
    unfold findFrom cutInto
    split <;> simp
  | cons c rest ih =>
    unfold findFrom cutInto
    split
    · simp
    · rw [← ih, size_cons, Nat.add_comm]

/-- A needle is found behind the text in which it does not begin. -/
theorem find?_eq_some :
    find? needle text = some offset ↔
      ∃ body rest, IsBefore needle body ∧ text = body ++ (needle ++ rest) ∧ size body = offset := by
  rw [find?, ← size_nil, findFrom_eq_map_cutInto, ← cut?, Option.map_eq_some_iff, Prod.exists]
  simp only [cut?_eq_some, and_assoc]

/-- Whether there is an occurrence does not depend on where the text begins. -/
theorem findFrom_eq_none_iff (passed passed' : Nat) :
    findFrom needle passed text = none ↔ findFrom needle passed' text = none := by
  induction text generalizing passed passed' with
  | nil =>
    unfold findFrom
    split <;> simp
  | cons c rest ih =>
    unfold findFrom
    split
    · simp
    · exact ih ..

/-- What stands in a text is found, there or earlier. -/
theorem find?_append_ne_none : find? needle (body ++ (needle ++ rest)) ≠ none := by
  induction body with
  | nil =>
    intro h
    -- Even at the end of a text the empty needle is found.
    cases hall : needle ++ rest with
    | nil =>
      obtain ⟨rfl, rfl⟩ := List.append_eq_nil_iff.1 hall
      cases h
    | cons c later =>
      have hprefix : needle.isPrefixOf (c :: later) = true := by
        rw [← hall, List.isPrefixOf_iff_prefix]
        exact List.prefix_append needle rest
      rw [List.nil_append, hall, find?, findFrom, if_pos hprefix] at h
      cases h
  | cons c later ih =>
    intro h
    rw [List.cons_append, find?, findFrom] at h
    split at h
    · cases h
    · exact ih ((findFrom_eq_none_iff ..).1 h)

/-- A needle that begins with a character of its own does not begin in a text without it when it
follows this text. -/
theorem isBefore_of_find?_eq_none {later : Text} (hc : c ∉ later)
    (h : find? (c :: later) body = none) : IsBefore (c :: later) body := by
  induction body with
  | nil => trivial
  | cons first rest ih =>
    rw [find?, findFrom] at h
    split at h
    · cases h
    · rename_i hprefix
      refine ⟨?_, ih ((findFrom_eq_none_iff ..).1 h)⟩
      refine Bool.eq_false_iff.2 fun hoverlap => ?_
      rw [List.isPrefixOf_iff_prefix] at hprefix hoverlap
      rcases Nat.le_total (c :: later).length (first :: rest).length with hle | hle
      · exact hprefix (List.prefix_of_prefix_length_le hoverlap (List.prefix_append ..) hle)
      · obtain ⟨behind, hbehind⟩ : first :: rest <+: c :: later :=
          List.prefix_of_prefix_length_le (List.prefix_append ..) hoverlap hle
        rw [← hbehind, List.prefix_append_right_inj, hbehind] at hoverlap
        cases behind with
        | nil => exact hprefix ⟨[], by rw [← hbehind, List.append_nil, List.append_nil]⟩
        | cons again _ =>
          -- The needle would begin again inside itself.
          obtain rfl := (List.cons_prefix_cons.1 hoverlap).1
          obtain ⟨-, hlater⟩ := List.cons.inj hbehind
          exact hc (hlater ▸ List.mem_append_right _ List.mem_cons_self)

end Retrace.Text
