import Retrace.Text.Position

/-!
# The order of positions

Positions are compared by their lines first and by their columns if they are on the same line. A
later offset of a text never has an earlier position (`Text.position_mono`), and a later position
never stands for an earlier offset, be it in the text or outside (`Text.offset_mono`). The one thing
to keep in mind is that lines are counted from one: line zero counts as line one, so positions on
line zero are not in order with those on line one.
-/

namespace Retrace

namespace Position

variable {first second third : Position}

/-- Positions are compared by line and then by column. -/
instance : LE Position where
  le first second :=
    first.line < second.line ∨ first.line = second.line ∧ first.column ≤ second.column

theorem le_iff : first ≤ second ↔
    first.line < second.line ∨ first.line = second.line ∧ first.column ≤ second.column :=
  Iff.rfl

instance (first second : Position) : Decidable (first ≤ second) :=
  decidable_of_iff _ le_iff.symm

theorem le_refl (here : Position) : here ≤ here :=
  .inr ⟨rfl, Nat.le_refl _⟩

theorem le_trans (h : first ≤ second) (h' : second ≤ third) : first ≤ third := by
  rw [le_iff] at *
  omega

theorem line_le (h : first ≤ second) : first.line ≤ second.line := by
  rw [le_iff] at h
  omega

end Position

namespace Text

/-! ## From offsets to positions -/

/-- A text does not end ahead of where it begins. -/
theorem le_positionFrom (here : Position) (bytes : Nat) (text : Text) :
    here ≤ positionFrom here bytes text := by
  induction text generalizing here bytes with
  | nil => exact here.le_refl
  | cons c rest ih =>
    rw [positionFrom]
    split
    · refine Position.le_trans ?_ (ih _ _)
      -- Behind a character is the next column or the next line.
      split
      · exact .inl (Nat.lt_succ_self _)
      · exact .inr ⟨rfl, Nat.le_succ _⟩
    · exact here.le_refl

theorem positionFrom_mono (here : Position) {first second : Nat} (h : first ≤ second)
    (text : Text) : positionFrom here first text ≤ positionFrom here second text := by
  induction text generalizing here first second with
  | nil => exact here.le_refl
  | cons c rest ih =>
    rw [positionFrom]
    split
    · rename_i hfirst
      rw [positionFrom, if_pos (Nat.le_trans hfirst h)]
      exact ih _ (Nat.sub_le_sub_right h _)
    · exact le_positionFrom ..

/-- A later offset has no earlier position. -/
theorem position_mono {first second : Nat} (h : first ≤ second) (text : Text) :
    text.position first ≤ text.position second :=
  positionFrom_mono ⟨1, 1⟩ h text

/-- The lines of a text are counted from one. -/
theorem one_le_line_position (text : Text) (offset : Nat) : 1 ≤ (text.position offset).line :=
  Position.line_le (le_positionFrom ⟨1, 1⟩ offset text)

theorem line_positionFrom_le (here : Position) (bytes : Nat) (text : Text) :
    (positionFrom here bytes text).line ≤ here.line + text.count '\n' := by
  induction text generalizing here bytes with
  | nil => exact Nat.le_refl _
  | cons c rest ih =>
    rw [positionFrom, List.count_cons]
    split
    · refine Nat.le_trans (ih _ _) ?_
      -- A line feed adds a line here and is counted there.
      by_cases hc : c = '\n'
      · simp only [hc, if_true, beq_self_eq_true]
        omega
      · simp only [hc, if_false]
        omega
    · omega

/-- No position is on a line behind the last one. -/
theorem line_position_le (text : Text) (offset : Nat) :
    (text.position offset).line ≤ text.lineCount := by
  rw [lineCount, Nat.add_comm]
  exact line_positionFrom_le ⟨1, 1⟩ offset text

/-! ## From positions to offsets -/

theorem le_offsetFrom (passed line column : Nat) (text : Text) :
    passed ≤ offsetFrom passed line column text := by
  induction text generalizing passed line column with
  | nil => exact Nat.le_refl _
  | cons c rest ih =>
    rw [offsetFrom]
    split
    · split
      · exact Nat.le_refl _
      · exact Nat.le_trans (Nat.le_add_right ..) (ih ..)
    · exact Nat.le_trans (Nat.le_add_right ..) (ih ..)

theorem offsetFrom_mono (passed : Nat) {line column line' column' : Nat} (hline : 1 ≤ line)
    (h : line < line' ∨ line = line' ∧ column ≤ column') (text : Text) :
    offsetFrom passed line column text ≤ offsetFrom passed line' column' text := by
  induction text generalizing passed line column line' column' with
  | nil => exact Nat.le_refl _
  | cons c rest ih =>
    by_cases hlast : line ≤ 1
    · by_cases hstop : column ≤ 1 ∨ c = '\n'
      · -- The first position is here, and the second one is not further ahead.
        rw [offsetFrom, if_pos hlast, if_pos hstop]
        exact le_offsetFrom ..
      · obtain ⟨hcolumn, hc⟩ := not_or.1 hstop
        rw [offsetFrom, if_pos hlast, if_neg hstop, offsetFrom]
        by_cases hlast' : line' ≤ 1
        · rw [if_pos hlast', if_neg (not_or.2 ⟨by omega, hc⟩)]
          exact ih _ hline (by omega)
        · rw [if_neg hlast', if_neg hc]
          exact ih _ hline (by omega)
    · -- Both positions are on later lines, and a line feed brings both of them closer.
      have hlast' : ¬ line' ≤ 1 := by omega
      rw [offsetFrom, if_neg hlast, offsetFrom, if_neg hlast']
      by_cases hc : c = '\n'
      · rw [if_pos hc, if_pos hc]
        exact ih _ (by omega) (by omega)
      · rw [if_neg hc, if_neg hc]
        exact ih _ hline h

/-- A later position does not stand for an earlier offset. -/
theorem offset_mono {first second : Position} (hline : 1 ≤ first.line) (h : first ≤ second)
    (text : Text) : text.offset first ≤ text.offset second :=
  offsetFrom_mono 0 hline h text

end Text

end Retrace
