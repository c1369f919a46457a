import Retrace.Record.Quoted

/-!
# Quoted texts are read back

A quoted text is written character by character, and read the same way: a character stands for
itself, or a backslash stands in front of what `Record.escaped?` reads it back from. Control
characters never stand for themselves, so a quoted text takes no more than one line.

## Main results

* `Record.escape_cases`: how a character is written, and that it is read back from there;
* `Record.unquote?_quote`: a quoted text is read back, whatever follows it;
* `Record.not_control_of_mem_quote`: no control character stands in a quoted text.
-/

namespace Retrace.Record

/-- A control character is read back from its number in hexadecimal. -/
theorem unicode?_hexDigit {c : Char} (h : c.toNat < 32) (rest : Text) :
    unicode? ('0' :: '0' :: hexDigit (c.toNat / 16) :: hexDigit (c.toNat % 16) :: rest) =
      some (c, rest) := by
  have hdigits : ∀ number < 32, Text.digits? 16
      ['0', '0', hexDigit (number / 16), hexDigit (number % 16)] = some number := by
    decide
  have hhigh : isHigh c.toNat = false := by
    simp only [isHigh, Bool.and_eq_false_imp, decide_eq_true_eq]
    omega
  have hlow : isLow c.toNat = false := by
    simp only [isLow, Bool.and_eq_false_imp, decide_eq_true_eq]
    omega
  simp only [unicode?, unit?, hdigits c.toNat h, Option.map_some, hhigh, hlow, Bool.false_eq_true,
    if_false, Char.ofNat_toNat]

/-- How a character is written: as itself, if it is no quotation mark, backslash or control
character, or as a backslash in front of something that it is read back from. -/
theorem escape_cases (c : Char) :
    (escape c = [c] ∧ c ≠ '"' ∧ c ≠ '\\' ∧ ¬ c.toNat < 32) ∨
      ∃ code, escape c = '\\' :: code ∧ (∀ d ∈ code, ¬ d.toNat < 32) ∧
        ∀ rest, escaped? (code ++ rest) = some (c, rest) := by
  unfold escape
  split
  case h_8 hquote hbackslash _ _ _ _ _ =>
    by_cases hcontrol : c.toNat < 32
    · rw [if_pos hcontrol]
      have hdigit : ∀ value < 32, ¬ (hexDigit value).toNat < 32 := by decide
      refine Or.inr ⟨_, rfl, ?_, fun rest => unicode?_hexDigit hcontrol rest⟩
      simp only [List.forall_mem_cons, List.not_mem_nil, false_imp_iff, implies_true, and_true]
      exact ⟨by decide, by decide, by decide, hdigit _ (by omega), hdigit _ (by omega)⟩
    · rw [if_neg hcontrol]
      exact Or.inl ⟨rfl, hquote, hbackslash, hcontrol⟩
  -- Every other escape is one letter, read back by a case of its own.
  all_goals exact Or.inr ⟨_, rfl, List.forall_mem_singleton.2 (by decide), fun rest => rfl⟩

/-- No character is written with a control character. -/
theorem not_control_of_mem_escape {c d : Char} (h : d ∈ escape c) : ¬ d.toNat < 32 := by
  rcases escape_cases c with ⟨hescape, -, -, hcontrol⟩ | ⟨code, hescape, hcode, -⟩
  · rw [hescape, List.mem_singleton] at h
    exact h ▸ hcontrol
  · rw [hescape] at h
    rcases List.mem_cons.1 h with rfl | h
    · decide
    · exact hcode d h

/-- No control character stands in a quoted text. -/
theorem not_control_of_mem_quote {text : Text} {d : Char} (h : d ∈ quote text) :
    ¬ d.toNat < 32 := by
  rw [quote, List.cons_append, List.mem_cons, List.mem_append, List.mem_flatMap,
    List.mem_singleton] at h
  rcases h with rfl | ⟨c, -, h⟩ | rfl
  · decide
  · exact not_control_of_mem_escape h
  · decide

/-- Every character is written with at least one. -/
theorem length_le_length_escape (text : Text) : text.length ≤ (text.flatMap escape).length := by
  induction text with
  | nil => exact Nat.le_refl _
  | cons c rest ih =>
    have hc : 0 < (escape c).length := by
      rcases escape_cases c with ⟨hescape, -⟩ | ⟨code, hescape, -⟩ <;> simp [hescape]
    rw [List.flatMap_cons, List.length_append, List.length_cons]
    omega

/-- The reader takes one step for each character and one for the closing quotation mark. -/
theorem unquoteFrom?_escape (text rest read : Text) {bound : Nat} (h : text.length < bound) :
    unquoteFrom? bound read (text.flatMap escape ++ '"' :: rest) =
      some (read.reverse ++ text, rest) := by
  induction text generalizing read bound with
  | nil =>
    obtain ⟨bound, rfl⟩ := Nat.exists_eq_add_of_lt h
    rw [List.append_nil]
    rfl
  | cons c later ih =>
    obtain ⟨bound, rfl⟩ : ∃ steps, bound = steps + 1 := ⟨bound - 1, by omega⟩
    have hlater := ih (c :: read) (Nat.lt_of_succ_lt_succ h)
    rw [List.reverse_cons, List.append_assoc, List.singleton_append] at hlater
    rw [List.flatMap_cons, List.append_assoc]
    rcases escape_cases c with ⟨hescape, hquote, hbackslash, hcontrol⟩ | ⟨code, hescape, -, hread⟩
    · rw [hescape, List.singleton_append, unquoteFrom?, if_neg hquote, if_neg hbackslash,
        if_neg hcontrol]
      exact hlater
    · rw [hescape, List.cons_append, unquoteFrom?, if_neg (by decide), if_pos rfl, hread]
      exact hlater

/-- A quoted text is read back, whatever follows it. -/
theorem unquote?_quote (text rest : Text) :
    ∃ quoted, quote text ++ rest = '"' :: quoted ∧ unquote? quoted = some (text, rest) := by
  refine ⟨text.flatMap escape ++ '"' :: rest, ?_, ?_⟩
  · rw [quote, List.append_assoc, List.cons_append, List.singleton_append]
  · refine unquoteFrom?_escape text rest [] ?_
    have hlength := length_le_length_escape text
    rw [List.length_append, List.length_cons]
    omega

end Retrace.Record
