import Mathlib.Order.Bounds.Basic
import Retrace.Proofs.Text.Order
import Retrace.Proofs.Text.Position

/-!
# Positions and offsets as inverses

A text has as many boundaries as it has positions, namely one for each character and one for its
end, and they correspond one to one in the same order. An offset that is no boundary counts as the
last boundary ahead of it, so going from an offset to its position and back gives this boundary
(`offset_position_eq`). A position that is not in the text counts as some boundary, too, and going
from a position to its offset and back changes nothing exactly if the position is in the text
(`position_offset_iff`).

## Main definitions

* `Position.StandsIn`: the positions in a text, told from its lines;
* `Position.counted`: a position that is counted from one character further ahead.

## Main results

* `Text.position_and_offset`: how offsets and positions correspond.
-/

namespace Retrace

namespace Position

variable {first second : Position}

/-- One position is ahead of another one if its line is, or its column on the same line. -/
instance : LT Position where
  lt first second :=
    first.line < second.line ∨ first.line = second.line ∧ first.column < second.column

theorem lt_iff : first < second ↔
    first.line < second.line ∨ first.line = second.line ∧ first.column < second.column :=
  Iff.rfl

/-- The order on positions is strict where they differ. -/
theorem lt_iff_le_and_ne : first < second ↔ first ≤ second ∧ first ≠ second := by
  obtain ⟨line, column⟩ := first
  obtain ⟨line', column'⟩ := second
  rw [lt_iff, le_iff, ne_eq, mk.injEq]
  dsimp only
  omega

/-! ## The positions in a text -/

/-- A position in a text is on one of its lines, at a character of the line or at its end. -/
def StandsIn (position : Position) (text : Text) : Prop :=
  ∃ line column : Nat, position = ⟨line + 1, column + 1⟩ ∧
    ∃ characters, (text.splitOn '\n')[line]? = some characters ∧ column ≤ characters.length

/-- A position in the text behind a character, counted from this character on. -/
def counted (c : Char) (position : Position) : Position :=
  if c = '\n' then ⟨position.line + 1, position.column⟩
  else if position.line = 1 then ⟨1, position.column + 1⟩
  else position

theorem counted_newline (position : Position) :
    counted '\n' position = ⟨position.line + 1, position.column⟩ :=
  rfl

theorem counted_of_line_eq {c : Char} (hc : c ≠ '\n') (column : Nat) :
    counted c ⟨1, column⟩ = ⟨1, column + 1⟩ := by
  rw [counted, if_neg hc, if_pos rfl]

theorem counted_of_line_ne {c : Char} {position : Position} (hc : c ≠ '\n')
    (hline : position.line ≠ 1) : counted c position = position := by
  rw [counted, if_neg hc, if_neg hline]

/-- Where a text ends is counted from its first character on. -/
theorem behind_eq_counted (c : Char) (rest : Text) :
    (Position.mk 1 1).behind (c :: rest) = counted c ((Position.mk 1 1).behind rest) := by
  rw [behind_cons, next, counted]
  by_cases hc : c = '\n'
  · rw [if_pos hc, if_pos hc, behind_nextLine]
  · -- The column shifts only where the rest has not begun another line.
    rw [if_neg hc, if_neg hc, behind_nextColumn]
    by_cases hmem : '\n' ∈ rest
    · have hlt : 1 < ((Position.mk 1 1).behind rest).line :=
        @line_lt_line_behind ⟨1, 1⟩ rest hmem
      rw [if_pos hmem, if_neg (Nat.ne_of_gt hlt)]
    · rw [if_neg hmem, if_pos (line_behind hmem)]

theorem standsIn_nil {position : Position} : position.StandsIn [] ↔ position = ⟨1, 1⟩ := by
  unfold StandsIn
  rw [List.splitOn_nil]
  constructor
  · rintro ⟨line, column, rfl, characters, hline, hcolumn⟩
    cases line with
    | zero =>
      obtain rfl := Option.some.inj hline
      obtain rfl := Nat.le_zero.1 hcolumn
      rfl
    | succ line => cases hline
  · rintro rfl
    exact ⟨0, 0, rfl, [], rfl, Nat.le_refl 0⟩

/-- Behind a line break, the positions are those of the text behind it, one line further down. -/
theorem standsIn_newline_cons {position : Position} {rest : Text} :
    position.StandsIn ('\n' :: rest) ↔
      position = ⟨1, 1⟩ ∨
        ∃ later : Position, later.StandsIn rest ∧ position = counted '\n' later := by
  simp only [StandsIn, counted_newline]
  rw [List.splitOn_cons_eq_if_modifyHead, if_pos (beq_self_eq_true '\n')]
  constructor
  · rintro ⟨line, column, rfl, characters, hline, hcolumn⟩
    -- The first line is empty, and all others are those of the rest.
    cases line with
    | zero =>
      obtain rfl := Option.some.inj hline
      obtain rfl := Nat.le_zero.1 hcolumn
      exact Or.inl rfl
    | succ line => exact Or.inr ⟨_, ⟨line, column, rfl, characters, hline, hcolumn⟩, rfl⟩
  · rintro (rfl | ⟨later, ⟨line, column, rfl, characters, hline, hcolumn⟩, rfl⟩)
    · exact ⟨0, 0, rfl, [], rfl, Nat.le_refl 0⟩
    · exact ⟨line + 1, column, rfl, characters, hline, hcolumn⟩

/-- Behind any other character, the positions on the first line are one column further on. -/
theorem standsIn_cons_of_ne {position : Position} {c : Char} {rest : Text} (hc : c ≠ '\n') :
    position.StandsIn (c :: rest) ↔
      position = ⟨1, 1⟩ ∨ ∃ later : Position, later.StandsIn rest ∧ position = counted c later := by
  obtain ⟨first, others, hsplit⟩ := List.exists_cons_of_ne_nil (List.splitOn_ne_nil '\n' rest)
  unfold StandsIn
  rw [List.splitOn_cons_eq_if_modifyHead, hsplit, List.modifyHead_cons, if_neg (mt beq_iff_eq.1 hc)]
  constructor
  · rintro ⟨line, column, rfl, characters, hline, hcolumn⟩
    -- The first line has one more character than that of the rest.
    cases line with
    | zero =>
      obtain rfl := Option.some.inj hline
      cases column with
      | zero => exact Or.inl rfl
      | succ column =>
        exact Or.inr ⟨_, ⟨0, column, rfl, first, rfl, Nat.le_of_succ_le_succ hcolumn⟩,
          (counted_of_line_eq hc column.succ).symm⟩
    | succ line =>
      exact Or.inr ⟨_, ⟨line + 1, column, rfl, characters, hline, hcolumn⟩,
        (counted_of_line_ne hc (by simp)).symm⟩
  · rintro (rfl | ⟨later, ⟨line, column, rfl, characters, hline, hcolumn⟩, rfl⟩)
    · exact ⟨0, 0, rfl, c :: first, rfl, Nat.zero_le _⟩
    · cases line with
      | zero =>
        obtain rfl := Option.some.inj hline
        exact ⟨0, column + 1, counted_of_line_eq hc column.succ, c :: first, rfl,
          Nat.succ_le_succ hcolumn⟩
      | succ line =>
        exact ⟨line + 1, column, counted_of_line_ne hc (by simp), characters, hline, hcolumn⟩

/-- The positions in a text are the first one and those behind the first character. -/
theorem standsIn_cons {position : Position} {c : Char} {rest : Text} :
    position.StandsIn (c :: rest) ↔
      position = ⟨1, 1⟩ ∨ ∃ later : Position, later.StandsIn rest ∧ position = counted c later := by
  by_cases hc : c = '\n'
  · subst hc
    exact standsIn_newline_cons
  · exact standsIn_cons_of_ne hc

/-- The positions in a text are those where its leading parts end. -/
theorem standsIn_iff {position : Position} {text : Text} :
    position.StandsIn text ↔
      ∃ front back, text = front ++ back ∧ position = (Position.mk 1 1).behind front := by
  induction text generalizing position with
  | nil =>
    rw [standsIn_nil]
    constructor
    · rintro rfl
      exact ⟨[], [], rfl, rfl⟩
    · rintro ⟨front, back, htext, rfl⟩
      obtain ⟨rfl, -⟩ := List.append_eq_nil_iff.1 htext.symm
      rfl
  | cons c rest ih =>
    rw [standsIn_cons]
    constructor
    · rintro (rfl | ⟨later, hlater, rfl⟩)
      · exact ⟨[], c :: rest, rfl, rfl⟩
      · obtain ⟨front, back, rfl, rfl⟩ := ih.1 hlater
        exact ⟨c :: front, back, rfl, (behind_eq_counted c front).symm⟩
    · rintro ⟨front, back, htext, rfl⟩
      cases front with
      | nil => exact Or.inl rfl
      | cons d front =>
        obtain ⟨rfl, rfl⟩ := List.cons.inj htext
        exact Or.inr ⟨_, ih.2 ⟨front, back, rfl, rfl⟩, behind_eq_counted c front⟩

end Position

namespace Text

/-! ## From offsets to positions -/

/-- The position of an offset is where the whole characters ahead of it end. -/
theorem positionFrom_eq_behind (here : Position) (bytes : Nat) (text : Text) :
    positionFrom here bytes text = here.behind (upTo bytes text) := by
  induction text generalizing here bytes with
  | nil => rfl
  | cons c rest ih =>
    rw [positionFrom, upTo_cons]
    split
    · exact ih ..
    · rfl

theorem position_eq_behind (text : Text) (bytes : Nat) :
    text.position bytes = (Position.mk 1 1).behind (upTo bytes text) :=
  positionFrom_eq_behind ⟨1, 1⟩ bytes text

/-- Whole characters that fit into some bytes take no more than these. -/
theorem size_upTo_le (bytes : Nat) (text : Text) : size (upTo bytes text) ≤ bytes := by
  induction text generalizing bytes with
  | nil => exact Nat.zero_le _
  | cons c rest ih =>
    rw [upTo_cons]
    split
    · rw [size_cons]
      have hrest := ih (bytes - c.utf8Size)
      omega
    · exact Nat.zero_le _

/-- More characters than those that are taken do not fit. -/
theorem le_size_upTo {boundary bytes : Nat} {text : Text} (h : text.IsBoundary boundary)
    (hle : boundary ≤ bytes) : boundary ≤ size (upTo bytes text) := by
  obtain ⟨front, back, rfl, rfl⟩ := isBoundary_iff.1 h
  obtain ⟨more, rfl⟩ := Nat.exists_eq_add_of_le hle
  rw [upTo_size_add, size_append]
  exact Nat.le_add_right ..

/-- The whole characters that fit into some bytes end at the last boundary that is not behind. -/
theorem isGreatest_size_upTo (bytes : Nat) (text : Text) :
    IsGreatest {boundary | text.IsBoundary boundary ∧ boundary ≤ min bytes (size text)}
      (size (upTo bytes text)) := by
  have hboundary : text.IsBoundary (size (upTo bytes text)) :=
    isBoundary_iff.2 ⟨_, _, (upTo_append_since bytes text).symm, rfl⟩
  refine ⟨⟨hboundary, Nat.le_min.2 ⟨size_upTo_le bytes text, hboundary.le_size⟩⟩, ?_⟩
  rintro boundary ⟨hother, hle⟩
  exact le_size_upTo hother (Nat.le_trans hle (Nat.min_le_left ..))

/-- Going from an offset to its position and back gives the last boundary that is not behind the
offset. -/
theorem offset_position_eq (text : Text) (bytes : Nat) :
    text.offset (text.position bytes) = size (upTo bytes text) := by
  have hcut := upTo_append_since bytes text
  have hback := @offsetFrom_behind (upTo bytes text) (since bytes text) 0
  rw [hcut, Nat.zero_add] at hback
  rw [offset, position_eq_behind, hback]

/-! ## From positions to offsets -/

/-- A position stands for the end of some leading part. -/
theorem exists_offsetFrom_eq (passed line column : Nat) (text : Text) :
    ∃ front back, text = front ++ back ∧
      offsetFrom passed line column text = passed + size front := by
  induction text generalizing passed line column with
  | nil => exact ⟨[], [], rfl, rfl⟩
  | cons c rest ih =>
    -- A character that is passed belongs to the leading part.
    have hlater (line column : Nat) : ∃ front back, c :: rest = front ++ back ∧
        offsetFrom (passed + c.utf8Size) line column rest = passed + size front := by
      obtain ⟨front, back, rfl, hoffset⟩ := ih (passed + c.utf8Size) line column
      exact ⟨c :: front, back, rfl, by rw [hoffset, size_cons, Nat.add_assoc]⟩
    rw [offsetFrom]
    split
    · split
      · exact ⟨[], c :: rest, rfl, rfl⟩
      · exact hlater ..
    · exact hlater ..

theorem isBoundary_offset (text : Text) (position : Position) :
    text.IsBoundary (text.offset position) := by
  obtain ⟨front, back, htext, hoffset⟩ :=
    exists_offsetFrom_eq 0 position.line position.column text
  exact isBoundary_iff.2 ⟨front, back, htext, by rw [offset, hoffset, Nat.zero_add]⟩

/-- Going from a position to its offset and back changes nothing exactly if the position is in the
text. -/
theorem position_offset_iff {text : Text} {position : Position} :
    text.position (text.offset position) = position ↔ position.StandsIn text := by
  rw [Position.standsIn_iff]
  constructor
  · intro h
    -- The position of an offset is in the text, whatever the offset.
    refine ⟨_, _, (upTo_append_since (text.offset position) text).symm, ?_⟩
    rw [← position_eq_behind, h]
  · rintro ⟨front, back, rfl, rfl⟩
    rw [offset, offsetFrom_behind, Nat.zero_add, position_append]

/-- Boundaries have their positions in the same order. -/
theorem position_lt_iff {text : Text} {first second : Nat} (hfirst : text.IsBoundary first)
    (hsecond : text.IsBoundary second) :
    text.position first < text.position second ↔ first < second := by
  rw [Position.lt_iff_le_and_ne]
  -- Both ways are monotone, and boundaries come back from their positions.
  constructor
  · rintro ⟨hle, hne⟩
    have hmono := offset_mono (one_le_line_position text first) hle text
    rw [offset_position hfirst, offset_position hsecond] at hmono
    exact Nat.lt_of_le_of_ne hmono fun heq => hne (congrArg text.position heq)
  · intro hlt
    refine ⟨position_mono (Nat.le_of_lt hlt) text, fun heq => Nat.ne_of_lt hlt ?_⟩
    rw [← offset_position hfirst, heq, offset_position hsecond]

/-- How the offsets of a text and its positions correspond. From an offset, going to its position
and back leads to the greatest boundary that is not above it and not above the size of the text;
such positions are in the text, and those of boundaries are in the order of the boundaries. A
position, in the text or not, stands for a boundary of the text, and a later one for no earlier
boundary as long as lines are counted from one; going to its offset and back leads to the same
position exactly if it is in the text. So a span between two boundaries is told by its range. -/
theorem position_and_offset (text : Text) :
    (∀ bytes : Nat,
      IsGreatest {boundary | text.IsBoundary boundary ∧ boundary ≤ min bytes (size text)}
        (text.offset (text.position bytes)) ∧ (text.position bytes).StandsIn text) ∧
    (∀ {first second : Nat}, text.IsBoundary first → text.IsBoundary second →
      (text.position first < text.position second ↔ first < second)) ∧
    (∀ position : Position, text.IsBoundary (text.offset position) ∧
      text.offset position ≤ size text) ∧
    (∀ {first second : Position}, 1 ≤ first.line → first ≤ second →
      text.offset first ≤ text.offset second) ∧
    (∀ position : Position,
      text.position (text.offset position) = position ↔ position.StandsIn text) ∧
    ∀ {span : Span}, span.start ≤ span.stop → text.IsBoundary span.start →
      text.IsBoundary span.stop → (Range.ofSpan text span).toSpan text = span := by
  refine ⟨fun bytes => ⟨?_, ?_⟩, position_lt_iff,
    fun position => ⟨isBoundary_offset text position, offset_le_size text position⟩,
    fun hline hle => offset_mono hline hle text, fun position => position_offset_iff,
    Range.toSpan_ofSpan⟩
  · rw [offset_position_eq]
    exact isGreatest_size_upTo bytes text
  · rw [Position.standsIn_iff]
    exact ⟨_, _, (upTo_append_since bytes text).symm, position_eq_behind text bytes⟩

/-- A text with letters of two bytes, a carriage return, an empty line and no line feed at its
end. -/
def accented : Text :=
  "é\r\n\nàb".toList

/-- The offset in the middle of the last accented letter counts as the start of this letter, and an
offset far behind the text as its end; a position far to the right is at the end of its line. -/
theorem position_and_offset_accented :
    accented.offset (accented.position 6) = 5 ∧
      accented.offset (accented.position 18446744073709551615) = 8 ∧
      accented.position 2 < accented.position 3 ∧
      accented.offset ⟨1, 18446744073709551615⟩ ≤ accented.offset ⟨2, 1⟩ ∧
      accented.position (accented.offset ⟨3, 3⟩) = ⟨3, 3⟩ ∧
      (Range.ofSpan accented ⟨2, 7⟩).toSpan accented = ⟨2, 7⟩ := by
  obtain ⟨hback, hlt, -, hmono, hthere, hspan⟩ := position_and_offset accented
  obtain ⟨⟨⟨hboundary, hle⟩, hgreatest⟩, -⟩ := hback 6
  obtain ⟨⟨⟨-, hle'⟩, hgreatest'⟩, -⟩ := hback 18446744073709551615
  have hsize : size accented = 8 := by decide
  rw [hsize] at hle hle' hgreatest hgreatest'
  refine ⟨?_, ?_, (hlt (by decide) (by decide)).2 (by decide), hmono (by decide) (by decide),
    (hthere ⟨3, 3⟩).2 ⟨2, 2, rfl, _, rfl, by decide⟩, hspan (by decide) (by decide) (by decide)⟩
  · -- Between five and six there is no other boundary than five.
    have hlow : 5 ≤ accented.offset (accented.position 6) := hgreatest ⟨by decide, by decide⟩
    have hne : accented.offset (accented.position 6) ≠ 6 := fun heq =>
      absurd (heq ▸ hboundary) (by decide : ¬ accented.IsBoundary 6)
    omega
  · have hlow : 8 ≤ accented.offset (accented.position 18446744073709551615) :=
      hgreatest' ⟨by decide, by decide⟩
    omega

end Text

end Retrace
