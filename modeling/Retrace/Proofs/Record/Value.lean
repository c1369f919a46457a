import Retrace.Proofs.Text.Digits
import Retrace.Record.Value

/-!
# Numbers are read back

A number in a record is written in decimal digits without leading zeros. The reader takes the whole
run of digits, so it finds the end of the number wherever something follows that cannot go on with
it.

## Main definitions

* `Record.EndsNumber`: a text that cannot go on with a number in front of it.

## Main results

* `Record.natural?_toDigits`: a number below the limit is read back.
-/

namespace Retrace.Record

/-- Only zero is written with a zero in front. -/
theorem exists_toDigits_eq_cons {number : Nat} (h : 0 < number) :
    ∃ c later, Nat.toDigits 10 number = c :: later ∧ c ≠ '0' := by
  induction number using Nat.strongRecOn with
  | ind number ih =>
    by_cases hlt : number < 10
    · have hdigits : ∀ value < 10, 0 < value → value.digitChar ≠ '0' := by decide
      exact ⟨_, [], Nat.toDigits_of_lt_base hlt, hdigits number hlt h⟩
    · obtain ⟨c, later, hdigits, hc⟩ := ih (number / 10) (by omega) (by omega)
      refine ⟨c, later ++ [(number % 10).digitChar], ?_, hc⟩
      rw [Nat.toDigits_of_base_le (by decide) (Nat.not_lt.1 hlt), hdigits, List.cons_append]

/-- No number in front of the text goes on with it: it begins neither with a digit nor with what
stands in front of a fraction or an exponent. -/
def EndsNumber (text : Text) : Prop :=
  ∀ c ∈ text.head?, ¬ c.isDigit ∧ ¬ (c = '.' ∨ c = 'e' ∨ c = 'E')

/-- The reader stops where the number ends. -/
theorem skipInteger?_toDigits (number : Nat) {rest : Text} (h : EndsNumber rest) :
    skipInteger? (Nat.toDigits 10 number ++ rest) = some rest := by
  have hrest : rest.dropWhile Char.isDigit = rest := by
    cases rest with
    | nil => rfl
    | cons c later => exact List.dropWhile_cons_of_neg (h c rfl).1
  rcases Nat.eq_zero_or_pos number with rfl | hpos
  · -- Behind a zero, another digit would not be taken.
    have hstarts : startsWithDigit rest = false := by
      cases rest with
      | nil => rfl
      | cons c later => exact Bool.eq_false_iff.2 (h c rfl).1
    show (if startsWithDigit rest then none else some rest) = some rest
    rw [hstarts]
    rfl
  · obtain ⟨c, later, hdigits, hc⟩ := exists_toDigits_eq_cons hpos
    have hdigit : ∀ d ∈ c :: later, d.isDigit :=
      fun d hd => Nat.isDigit_of_mem_toDigits (by decide) (by decide) (hdigits ▸ hd)
    obtain ⟨hfirst, hlater⟩ := List.forall_mem_cons.1 hdigit
    have hskip : skipInteger? (c :: (later ++ rest)) =
        if c.isDigit then some ((later ++ rest).dropWhile Char.isDigit) else none := by
      rw [skipInteger?.eq_def]
      split
      · rename_i heq
        exact absurd (List.cons.inj heq).1 hc
      · rename_i heq
        obtain ⟨rfl, rfl⟩ := List.cons.inj heq
        rfl
      · rename_i heq
        cases heq
    rw [hdigits, List.cons_append, hskip, if_pos hfirst, List.dropWhile_append_of_pos hlater, hrest]

/-- A number below the limit is read back. -/
theorem natural?_toDigits {limit number : Nat} (h : number < limit) {rest : Text}
    (hrest : EndsNumber rest) :
    natural? limit (Nat.toDigits 10 number ++ rest) = some (number, rest) := by
  have hnone : rest.head?.any (fun c => c = '.' ∨ c = 'e' ∨ c = 'E') = false := by
    cases rest with
    | nil => rfl
    | cons c later => exact decide_eq_false (hrest c rfl).2
  have htake : (Nat.toDigits 10 number ++ rest).take
      ((Nat.toDigits 10 number ++ rest).length - rest.length) = Nat.toDigits 10 number := by
    rw [List.length_append, Nat.add_sub_cancel, List.take_left]
  rw [natural?, skipInteger?_toDigits number hrest]
  dsimp only
  rw [hnone, htake, Text.digits?_toDigits]
  simp [h]

end Retrace.Record
