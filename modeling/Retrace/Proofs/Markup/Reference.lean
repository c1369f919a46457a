import Retrace.Markup.Reference
import Retrace.Proofs.Text.Run

/-!
# Decoding what was encoded

Every text can be written as character data. What `encode` writes holds no opening bracket, so it
stays one run of character data in a document, and `decode` gives the text back. The same goes for
attribute values, in which no quotation mark may be left either. Where in a document
a raw text stands matters for the faults in it only.

## Main definitions

* `Represents`: a way to write characters that decoding undoes.

## Main results

* `decode_encode`, `decode_encodeValue`: decoding inverts encoding;
* `all_encode`, `all_encodeValue`: what was encoded does not end early;
* `decode_of_decode`: the offset of a raw text is irrelevant if it has no fault.
-/

namespace Retrace.Markup

variable {name rest decoded text : Text} {c : Char}

/-- A character that begins no reference is decoded as itself. -/
theorem decodeInto_cons (h : c ≠ '&') (bound offset : Nat) :
    decodeInto (bound + 1) offset decoded (c :: rest) =
      decodeInto (bound + 1) (offset + c.utf8Size) (c :: decoded) rest := by
  have htake : (c :: rest).takeWhile (· ≠ '&') = c :: rest.takeWhile (· ≠ '&') :=
    List.takeWhile_cons_of_pos (decide_eq_true h)
  have hdrop : (c :: rest).dropWhile (· ≠ '&') = rest.dropWhile (· ≠ '&') :=
    List.dropWhile_cons_of_pos (decide_eq_true h)
  rw [decodeInto, decodeInto, htake, hdrop]
  simp only [Text.size_cons, List.reverse_cons, List.append_assoc, List.singleton_append,
    Nat.add_assoc]

/-- A reference is decoded as the character that it stands for. -/
theorem decodeInto_reference (hname : Text.IsBefore [';'] name) (h : referenced? name = some c)
    (bound offset : Nat) :
    decodeInto (bound + 1) offset decoded ('&' :: (name ++ ';' :: rest)) =
      decodeInto bound (offset + Text.size name + 2) (c :: decoded) rest := by
  have hcut : Text.cut? [';'] (name ++ ';' :: rest) = some (name, rest) :=
    Text.cut?_eq_some.2 ⟨hname, rfl⟩
  have htake : ('&' :: (name ++ ';' :: rest)).takeWhile (· ≠ '&') = [] := rfl
  have hdrop : ('&' :: (name ++ ';' :: rest)).dropWhile (· ≠ '&') =
      '&' :: (name ++ ';' :: rest) := rfl
  rw [decodeInto, htake, hdrop]
  dsimp only
  rw [hcut]
  dsimp only
  rw [h]
  rfl

/-- A way to write characters that can be undone: a character is written as itself or as a reference
that stands for it. -/
def Represents (write : Char → Text) : Prop :=
  ∀ c, c ≠ '&' ∧ write c = [c] ∨
    ∃ name, write c = '&' :: (name ++ [';']) ∧ Text.IsBefore [';'] name ∧ referenced? name = some c

/-- Characters are written in this way in character data. -/
theorem represents_encodeChar : Represents encodeChar := by
  intro c
  unfold encodeChar
  split
  · exact Or.inr ⟨['a', 'm', 'p'], rfl, by decide, by decide⟩
  · exact Or.inr ⟨['l', 't'], rfl, by decide, by decide⟩
  · exact Or.inr ⟨['g', 't'], rfl, by decide, by decide⟩
  · rename_i hamp _ _
    exact Or.inl ⟨hamp, rfl⟩

/-- And so they are in attribute values. -/
theorem represents_encodeValueChar : Represents encodeValueChar := by
  intro c
  unfold encodeValueChar
  split
  · exact Or.inr ⟨['q', 'u', 'o', 't'], rfl, by decide, by decide⟩
  · exact represents_encodeChar c

section Represents

variable {write : Char → Text}

/-- Writing loses no character. -/
theorem length_le_length_flatMap (h : Represents write) (text : Text) :
    text.length ≤ (text.flatMap write).length := by
  induction text with
  | nil => exact Nat.le_refl 0
  | cons c rest ih =>
    have hpos : 0 < (write c).length := by
      rcases h c with ⟨-, heq⟩ | ⟨name, heq, -⟩ <;> rw [heq] <;> exact Nat.succ_pos _
    rw [List.flatMap_cons, List.length_append, List.length_cons]
    omega

theorem decodeInto_flatMap (h : Represents write) {bound offset : Nat}
    (hbound : text.length < bound) :
    decodeInto bound offset decoded (text.flatMap write) = .ok (decoded.reverse ++ text) := by
  induction text generalizing bound offset decoded with
  | nil =>
    cases bound with
    | zero => exact absurd hbound (Nat.not_lt_zero _)
    | succ bound =>
      rw [List.append_nil]
      rfl
  | cons c rest ih =>
    cases bound with
    | zero => exact absurd hbound (Nat.not_lt_zero _)
    | succ bound =>
      rw [List.length_cons] at hbound
      have hlast : (c :: decoded).reverse ++ rest = decoded.reverse ++ c :: rest := by
        rw [List.reverse_cons, List.append_assoc, List.singleton_append]
      rw [List.flatMap_cons]
      -- A reference takes one from the bound, any other character none.
      rcases h c with ⟨hamp, heq⟩ | ⟨name, heq, hname, hc⟩
      · rw [heq, List.singleton_append, decodeInto_cons hamp, ih (Nat.lt_of_succ_lt hbound), hlast]
      · rw [heq, List.cons_append, List.append_assoc, List.singleton_append,
          decodeInto_reference hname hc, ih (Nat.lt_of_succ_lt_succ hbound), hlast]

/-- Decoding inverts writing, in whichever of these ways. -/
theorem decode_flatMap (h : Represents write) (offset : Nat) (text : Text) :
    decode offset (text.flatMap write) = .ok text :=
  decodeInto_flatMap h (Nat.lt_succ_of_le (length_le_length_flatMap h text))

end Represents

/-- Decoding inverts encoding. -/
theorem decode_encode (offset : Nat) (text : Text) : decode offset (encode text) = .ok text :=
  decode_flatMap represents_encodeChar offset text

/-- Decoding inverts the encoding of attribute values. -/
theorem decode_encodeValue (offset : Nat) (value : Text) :
    decode offset (encodeValue value) = .ok value :=
  decode_flatMap represents_encodeValueChar offset value

/-- No opening bracket is left when a text has been encoded. -/
theorem all_encode (text : Text) : (encode text).all (· ≠ '<') = true := by
  have hchar (c : Char) : (encodeChar c).all (· ≠ '<') = true := by
    unfold encodeChar
    split
    · rfl
    · rfl
    · rfl
    · rename_i hlt _
      simpa using hlt
  rw [encode, List.all_flatMap, List.all_eq_true]
  exact fun c _ => hchar c

/-- An attribute value that has been encoded does not end early either. -/
theorem all_encodeValue (value : Text) :
    (encodeValue value).all (isValueChar .double) = true := by
  have hchar (c : Char) : (encodeValueChar c).all (isValueChar .double) = true := by
    unfold encodeValueChar encodeChar
    split
    · rfl
    · rename_i hquot
      split
      · rfl
      · rfl
      · rfl
      · rename_i hlt _
        rw [List.all_cons, List.all_nil, Bool.and_true, isValueChar, Bool.and_eq_true]
        exact ⟨decide_eq_true hquot, decide_eq_true hlt⟩
  rw [encodeValue, List.all_flatMap, List.all_eq_true]
  exact fun c _ => hchar c

/-- Only the empty text is written as nothing. -/
theorem encode_ne_nil (h : text ≠ []) : encode text ≠ [] := by
  intro hnil
  have hle := length_le_length_flatMap represents_encodeChar text
  rw [← encode, hnil, List.length_nil] at hle
  exact h (List.length_eq_zero_iff.1 (Nat.le_zero.1 hle))

theorem decodeInto_of_decodeInto {bound offset : Nat} {raw : Text}
    (h : decodeInto bound offset decoded raw = .ok text) (offset' : Nat) :
    decodeInto bound offset' decoded raw = .ok text := by
  induction bound generalizing offset offset' decoded raw with
  | zero => exact h
  | succ bound ih =>
    -- Offsets are handed on and reported, but nothing is decided by them.
    unfold decodeInto at h ⊢
    dsimp only at h ⊢
    split at h
    · exact h
    · split at h
      · cases h
      · split at h
        · cases h
        · exact ih h _

/-- A raw text without a fault is decoded in the same way wherever it stands. -/
theorem decode_of_decode {offset : Nat} {raw : Text} (h : decode offset raw = .ok text)
    (offset' : Nat) : decode offset' raw = .ok text :=
  decodeInto_of_decodeInto h offset'

end Retrace.Markup
