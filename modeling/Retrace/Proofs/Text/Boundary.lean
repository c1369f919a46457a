import Retrace.Text.Basic

/-!
# Boundaries of a text

Byte offsets meet characters at the boundaries of a text: an offset is a boundary exactly when it is
the size of some leading part. A text is cut at such an offset into that part and what is behind it
(`upTo_append`, `since_append`), so statements about offsets become statements about parts.

## Main results

* `isBoundary_iff`: the boundaries are the sizes of the leading parts;
* `slice_append_slice`: what lies between two boundaries is cut by a third one;
* `eq_of_append_eq_append`: two ways to cut a text at the same offset are the same.
-/

namespace Retrace.Text

variable {text front back : Text} {bytes : Nat}

/-- Only the empty text takes no bytes. -/
theorem size_eq_zero_iff : size text = 0 ↔ text = [] := by
  constructor
  · intro h
    cases text with
    | nil => rfl
    | cons c rest =>
      have hc := Char.utf8Size_pos c
      rw [size_cons] at h
      omega
  · rintro rfl
    rfl

/-- What is put together from a leading part and the text behind it is cut into these two. -/
theorem upTo_append : upTo (size front) (front ++ back) = front := by
  induction front with
  | nil =>
    cases back with
    | nil => rfl
    | cons c rest =>
      have hc := Char.utf8Size_pos c
      rw [List.nil_append, upTo_cons, size_nil, if_neg (by omega)]
  | cons c rest ih =>
    rw [List.cons_append, upTo_cons, size_cons, if_pos (by omega), Nat.add_sub_cancel_left, ih]

theorem since_append : since (size front) (front ++ back) = back := by
  have h := upTo_append_since (size front) (front ++ back)
  rw [upTo_append] at h
  exact List.append_cancel_left h

/-- Behind a leading part, cutting goes on in the rest. -/
theorem since_size_add : since (size front + bytes) (front ++ back) = since bytes back := by
  induction front with
  | nil => rw [size_nil, Nat.zero_add, List.nil_append]
  | cons c rest ih =>
    rw [List.cons_append, since, size_cons, if_pos (by omega), Nat.add_assoc,
      Nat.add_sub_cancel_left, ih]

theorem upTo_size_add : upTo (size front + bytes) (front ++ back) = front ++ upTo bytes back := by
  have h := upTo_append_since (size front + bytes) (front ++ back)
  rw [since_size_add] at h
  apply List.append_cancel_right (h.trans _)
  rw [List.append_assoc, upTo_append_since]

/-- The characters between two offsets behind a leading part. -/
theorem slice_size_add {start stop : Nat} :
    slice (size front + start) (size front + stop) (front ++ back) = slice start stop back := by
  rw [slice, slice, since_size_add, Nat.add_sub_add_left]

/-- A part in the middle is what is between the offsets at which it begins and ends. -/
theorem slice_append {middle : Text} :
    slice (size front) (size (front ++ middle)) (front ++ (middle ++ back)) = middle := by
  rw [slice, since_append, size_append, Nat.add_sub_cancel_left, upTo_append]

/-- The boundaries of a text are the sizes of its leading parts. -/
theorem isBoundary_iff :
    text.IsBoundary bytes ↔ ∃ front back, text = front ++ back ∧ size front = bytes := by
  constructor
  · intro h
    exact ⟨upTo bytes text, since bytes text, (upTo_append_since bytes text).symm, h⟩
  · rintro ⟨front, back, rfl, rfl⟩
    rw [IsBoundary, upTo_append]

/-- A leading part ends at a boundary. -/
theorem isBoundary_size_append (front back : Text) : (front ++ back).IsBoundary (size front) :=
  isBoundary_iff.2 ⟨front, back, rfl, rfl⟩

/-- A text begins at a boundary. -/
theorem isBoundary_zero (text : Text) : text.IsBoundary 0 :=
  isBoundary_size_append [] text

/-- A text ends at a boundary. -/
theorem isBoundary_size (text : Text) : text.IsBoundary (size text) :=
  isBoundary_iff.2 ⟨text, [], (List.append_nil text).symm, rfl⟩

/-- No boundary lies behind the end of the text. -/
theorem IsBoundary.le_size (h : text.IsBoundary bytes) : bytes ≤ size text := by
  obtain ⟨front, back, rfl, rfl⟩ := isBoundary_iff.1 h
  rw [size_append]
  exact Nat.le_add_right ..

/-- The boundaries behind a leading part are those of the text behind it. -/
theorem isBoundary_append :
    (front ++ back).IsBoundary (size front + bytes) ↔ back.IsBoundary bytes := by
  rw [isBoundary_iff, isBoundary_iff]
  constructor
  · rintro ⟨front', back', htext, hsize⟩
    rcases List.append_eq_append_iff.1 htext with ⟨middle, rfl, rfl⟩ | ⟨middle, rfl, rfl⟩
    · rw [size_append] at hsize
      exact ⟨middle, back', rfl, Nat.add_left_cancel hsize⟩
    · -- The cut lies inside the leading part only if there is nothing between them.
      rw [size_append] at hsize
      obtain rfl := size_eq_zero_iff.1 (by omega : size middle = 0)
      exact ⟨[], back, rfl, by rw [size_nil]; omega⟩
  · rintro ⟨middle, back', rfl, rfl⟩
    exact ⟨front ++ middle, back', (List.append_assoc ..).symm, size_append ..⟩

/-- A boundary that is not ahead of the end of a leading part cuts the text behind it. -/
theorem IsBoundary.exists_append (h : (front ++ back).IsBoundary bytes) (hle : size front ≤ bytes) :
    ∃ middle rest, back = middle ++ rest ∧ size (front ++ middle) = bytes := by
  obtain ⟨taken, rfl⟩ := Nat.exists_eq_add_of_le hle
  obtain ⟨middle, rest, rfl, rfl⟩ := isBoundary_iff.1 (isBoundary_append.1 h)
  exact ⟨middle, rest, rfl, size_append ..⟩

/-- No boundary lies inside a character. -/
theorem IsBoundary.le_or_le {c : Char} (h : (front ++ c :: back).IsBoundary bytes) :
    bytes ≤ size front ∨ size front + c.utf8Size ≤ bytes := by
  obtain ⟨front', back', htext, rfl⟩ := isBoundary_iff.1 h
  rcases List.append_eq_append_iff.1 htext with ⟨middle, rfl, hmiddle⟩ | ⟨middle, rfl, -⟩
  · cases middle with
    | nil =>
      rw [List.append_nil]
      exact Or.inl (Nat.le_refl _)
    | cons d later =>
      obtain rfl := (List.cons.inj hmiddle).1
      rw [size_append, size_cons]
      omega
  · rw [size_append]
    exact Or.inl (Nat.le_add_right ..)

/-- Nothing lies between a boundary and itself. -/
theorem slice_self (h : text.IsBoundary bytes) : text.slice bytes bytes = [] := by
  obtain ⟨front, back, rfl, rfl⟩ := isBoundary_iff.1 h
  have hnothing := @slice_append front back []
  rwa [List.append_nil, List.nil_append] at hnothing

/-- What lies between two boundaries is cut by a third one between them. -/
theorem slice_append_slice {start middle stop : Nat}
    (hstart : text.IsBoundary start) (hmiddle : text.IsBoundary middle)
    (hstop : text.IsBoundary stop) (hle : start ≤ middle) (hle' : middle ≤ stop) :
    text.slice start middle ++ text.slice middle stop = text.slice start stop := by
  obtain ⟨front, behind, rfl, rfl⟩ := isBoundary_iff.1 hstart
  obtain ⟨first, rest, rfl, rfl⟩ := hmiddle.exists_append hle
  rw [← List.append_assoc] at hstop
  obtain ⟨second, back, rfl, rfl⟩ := hstop.exists_append hle'
  -- The text is cut into four parts now, and the slices are made of the two in the middle.
  have hfirst : (front ++ (first ++ (second ++ back))).slice (size front)
      (size (front ++ first)) = first := slice_append
  have hsecond : (front ++ (first ++ (second ++ back))).slice (size (front ++ first))
      (size (front ++ first ++ second)) = second := by
    rw [← List.append_assoc, slice_append]
  have hwhole : (front ++ (first ++ (second ++ back))).slice (size front)
      (size (front ++ first ++ second)) = first ++ second := by
    rw [List.append_assoc front, ← List.append_assoc first, slice_append]
  rw [hfirst, hsecond, hwhole]

/-- Every byte of a text belongs to one of its characters. -/
theorem exists_append_cons_of_lt {offset : Nat} (h : offset < size text) :
    ∃ front c back, text = front ++ c :: back ∧ size front ≤ offset ∧
      offset < size front + c.utf8Size := by
  induction text generalizing offset with
  | nil => exact absurd h (Nat.not_lt_zero _)
  | cons c rest ih =>
    rw [size_cons] at h
    by_cases hc : offset < c.utf8Size
    · exact ⟨[], c, rest, rfl, Nat.zero_le _, by rwa [size_nil, Nat.zero_add]⟩
    · obtain ⟨front, d, back, rfl, hle, hlt⟩ := @ih (offset - c.utf8Size) (by omega)
      refine ⟨c :: front, d, back, rfl, ?_, ?_⟩
      · rw [size_cons]
        omega
      · rw [size_cons]
        omega

/-- Two ways to cut a text at the same offset are the same. -/
theorem eq_of_append_eq_append {front' back' : Text} (h : front ++ back = front' ++ back')
    (hsize : size front = size front') : front = front' ∧ back = back' := by
  have hfront : front = front' := by
    have hcut : upTo (size front) (front ++ back) = front := upTo_append
    rw [← hcut, h, hsize, upTo_append]
  subst hfront
  exact ⟨rfl, List.append_cancel_left h⟩

end Retrace.Text
