import Retrace.Proofs.Text.Boundary
import Retrace.Text.Position

/-!
# Positions and boundaries

The position of a boundary is what becomes of line one, column one when the characters before the
boundary are passed one by one (`Position.behind`). Going back from a position to an offset finds
the boundary again (`offset_position`), so nothing is lost when a place in a text is sent as a line
and a column.
-/

namespace Retrace

namespace Position

/-- The position behind a character that stands at this position. -/
def next (here : Position) (c : Char) : Position :=
  if c = '\n' then ⟨here.line + 1, 1⟩ else ⟨here.line, here.column + 1⟩

/-- The position behind a text that begins at this position. -/
def behind (here : Position) (text : Text) : Position :=
  text.foldl next here

@[simp] theorem behind_nil (here : Position) : here.behind [] = here := rfl

@[simp] theorem behind_cons (here : Position) (c : Char) (rest : Text) :
    here.behind (c :: rest) = (here.next c).behind rest := rfl

/-- A text that begins one line further down ends one line further down. -/
theorem behind_nextLine (line column : Nat) (text : Text) :
    (Position.mk (line + 1) column).behind text =
      ⟨((Position.mk line column).behind text).line + 1,
        ((Position.mk line column).behind text).column⟩ := by
  induction text generalizing line column with
  | nil => rfl
  | cons c rest ih =>
    simp only [behind_cons, next]
    split <;> exact ih ..

/-- A text that begins one column further right ends one column further right if it ends on the line
it began on, and at the same place otherwise. -/
theorem behind_nextColumn (line column : Nat) (text : Text) :
    (Position.mk line (column + 1)).behind text =
      if '\n' ∈ text then (Position.mk line column).behind text
      else ⟨line, ((Position.mk line column).behind text).column + 1⟩ := by
  induction text generalizing column with
  | nil => rfl
  | cons c rest ih =>
    simp only [behind_cons, next, List.mem_cons]
    by_cases hc : c = '\n'
    · simp [hc]
    · simp only [if_neg hc, ih, Ne.symm hc, false_or]

/-- A text without a line feed ends on the line it began on. -/
theorem line_behind {line column : Nat} {text : Text} (h : '\n' ∉ text) :
    ((Position.mk line column).behind text).line = line := by
  induction text generalizing column with
  | nil => rfl
  | cons c rest ih =>
    obtain ⟨hc, hrest⟩ := not_or.1 (mt List.mem_cons.2 h)
    rw [behind_cons, next, if_neg (Ne.symm hc), ih hrest]

/-- No text ends on an earlier line than it begins on. -/
theorem line_le_line_behind (here : Position) (text : Text) :
    here.line ≤ (here.behind text).line := by
  induction text generalizing here with
  | nil => exact Nat.le_refl _
  | cons c rest ih =>
    refine Nat.le_trans ?_ (ih (here.next c))
    rw [next]
    split
    · exact Nat.le_succ _
    · exact Nat.le_refl _

/-- A text with a line feed ends on a later line. -/
theorem line_lt_line_behind {here : Position} {text : Text} (h : '\n' ∈ text) :
    here.line < (here.behind text).line := by
  induction text generalizing here with
  | nil => cases h
  | cons c rest ih =>
    rw [behind_cons, next]
    by_cases hc : c = '\n'
    · rw [if_pos hc]
      exact Nat.lt_of_succ_le (line_le_line_behind ⟨here.line + 1, 1⟩ rest)
    · rw [if_neg hc]
      exact @ih ⟨here.line, here.column + 1⟩
        ((List.mem_cons.1 h).resolve_left (Ne.symm hc))

/-- Columns are counted from one. -/
theorem one_le_column_behind {here : Position} (h : 1 ≤ here.column) (text : Text) :
    1 ≤ (here.behind text).column := by
  induction text generalizing here with
  | nil => exact h
  | cons c rest ih =>
    rw [behind_cons]
    apply ih
    rw [next]
    split
    · exact Nat.le_refl 1
    · exact Nat.le_add_left ..

end Position

namespace Text

variable {front back : Text}

theorem positionFrom_append (here : Position) :
    positionFrom here (size front) (front ++ back) = here.behind front := by
  induction front generalizing here with
  | nil =>
    cases back with
    | nil => rfl
    | cons c rest =>
      have hc := Char.utf8Size_pos c
      rw [List.nil_append, positionFrom, size_nil, if_neg (by omega), Position.behind_nil]
  | cons c rest ih =>
    rw [List.cons_append, positionFrom, size_cons, if_pos (by omega), Nat.add_sub_cancel_left, ih]
    rfl

/-- The position of a boundary depends on what stands before it only. -/
theorem position_append :
    (front ++ back).position (size front) = (Position.mk 1 1).behind front :=
  positionFrom_append ⟨1, 1⟩

/-- Going down to where a text ends, counted from where it begins, passes just that text. -/
theorem offsetFrom_behind (passed : Nat) :
    offsetFrom passed ((Position.mk 1 1).behind front).line
      ((Position.mk 1 1).behind front).column (front ++ back) = passed + size front := by
  induction front generalizing passed with
  | nil =>
    cases back with
    | nil => rfl
    | cons c rest => rw [List.nil_append, offsetFrom, size_nil]; simp
  | cons c rest ih =>
    have hrest := ih (passed + c.utf8Size)
    rw [Nat.add_assoc] at hrest
    rw [List.cons_append, offsetFrom, size_cons, Position.behind_cons, Position.next]
    by_cases hc : c = '\n'
    -- A line feed: what is left ends one line further up, counted from behind it.
    · have hline := Position.line_le_line_behind ⟨1, 1⟩ rest
      rw [if_pos hc, Position.behind_nextLine, if_neg (Nat.not_le.2 (Nat.lt_succ_of_le hline)),
        if_pos hc, Nat.add_sub_cancel]
      exact hrest
    · -- Any other character: what is left ends one column further left if it ends on this line.
      rw [if_neg hc, Position.behind_nextColumn]
      by_cases h : '\n' ∈ rest
      · rw [if_pos h, if_neg (Nat.not_le.2 (Position.line_lt_line_behind h)), if_neg hc]
        exact hrest
      · have hcolumn : 1 ≤ (Position.behind ⟨1, 1⟩ rest).column :=
          Position.one_le_column_behind (Nat.le_refl 1) rest
        rw [if_neg h, if_pos (Nat.le_refl 1),
          if_neg (not_or.2 ⟨Nat.not_le.2 (Nat.lt_succ_of_le hcolumn), hc⟩),
          Nat.add_sub_cancel, ← hrest, Position.line_behind h]

theorem offsetFrom_le (passed line column : Nat) (text : Text) :
    offsetFrom passed line column text ≤ passed + size text := by
  induction text generalizing passed line column with
  | nil => exact Nat.le_refl _
  | cons c rest ih =>
    rw [offsetFrom, size_cons, ← Nat.add_assoc]
    split
    · split
      · omega
      · exact ih ..
    · exact ih ..

/-- A position stands for an offset within the text. -/
theorem offset_le_size (text : Text) (position : Position) : text.offset position ≤ size text := by
  have h := offsetFrom_le 0 position.line position.column text
  rwa [Nat.zero_add] at h

/-- Going from a boundary to its position and back changes nothing. -/
theorem offset_position {text : Text} {bytes : Nat} (h : text.IsBoundary bytes) :
    text.offset (text.position bytes) = bytes := by
  obtain ⟨front, back, rfl, rfl⟩ := isBoundary_iff.1 h
  rw [position_append, offset, offsetFrom_behind, Nat.zero_add]

end Text

/-- Going from a span to its range and back changes nothing if the span cuts no character in two. -/
theorem Range.toSpan_ofSpan {text : Text} {span : Span} (hle : span.start ≤ span.stop)
    (hstart : text.IsBoundary span.start) (hstop : text.IsBoundary span.stop) :
    (ofSpan text span).toSpan text = span := by
  simp only [toSpan, ofSpan, Text.offset_position hstart, Text.offset_position hstop,
    Nat.max_eq_left hle]

end Retrace
