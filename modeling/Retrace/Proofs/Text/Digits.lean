import Mathlib.Data.List.Forall2
import Mathlib.Data.Nat.Digits.Defs
import Retrace.Text.Digits

/-!
# What numerals stand for

A numeral is a run of digits, and its number is the one with these digits in its base. The reader of
numerals takes the digits one by one and puts each behind the number it has so far; here its result
is told from the values of all digits at once. A plus sign in front of the digits is read as well.

## Main definitions

* `Text.IsDigit`, `Text.IsNumeral`: digits and numerals with what they stand for;
* `Text.optionalPlus`: what may stand in front of the digits.

## Main results

* `Text.digits?_eq_some_iff`: exactly the numerals are read, each as its number;
* `Text.numeral?_eq_some_iff`: so they are with a sign, as long as they stay below the limit;
* `Text.scalar?_eq_some_iff`: the number of a character is the number of that character alone;
* `Text.numeral?_toDigits`: a number that is written in decimal digits is read back.
-/

namespace Retrace.Text

variable {base value number : Nat} {c : Char} {text digits : Text}

/-- A digit in a base of at most sixteen and its value; letters may be of either case. -/
def IsDigit (base : Nat) (c : Char) (value : Nat) : Prop :=
  value < base ∧ (c = value.digitChar ∨ c = value.digitChar.toUpper)

/-- Some digits, at least one, and the number that they stand for. -/
structure IsNumeral (base : Nat) (digits : Text) (number : Nat) : Prop where
  /-- There is a digit. -/
  ne_nil : digits ≠ []
  /-- The number has the values of the digits, from the last one on, as its digits. -/
  exists_values : ∃ values, List.Forall₂ (IsDigit base) digits values ∧
    number = Nat.ofDigits base values.reverse

/-- Nothing or a plus sign. -/
def optionalPlus : List Text :=
  [[], ['+']]

/-! ## Digits -/

/-- In a smaller base there are fewer digits, with the same values. -/
theorem digit?_eq_filter (hbase : base ≤ 16) (c : Char) :
    digit? base c = (digit? 16 c).filter (· < base) := by
  unfold digit?
  dsimp only
  rw [Option.filter_filter]
  congr 1
  funext value
  have hle (h : value < base) : value < 16 := Nat.lt_of_lt_of_le h hbase
  simpa using fun h => hle h

theorem isDigit_of_digit? (h : digit? 16 c = some value) : IsDigit 16 c value := by
  obtain ⟨hvalue, hlt⟩ := Option.filter_eq_some_iff.1 h
  refine ⟨of_decide_eq_true hlt, ?_⟩
  -- One row for each of the three ranges of characters that digits are taken from.
  have hdecimal : ∀ n < 58, 48 ≤ n → Char.ofNat n = (n - 48).digitChar := by decide
  have hlower : ∀ n < 103, 97 ≤ n → Char.ofNat n = (n - 97 + 10).digitChar := by decide
  have hupper : ∀ n < 71, 65 ≤ n → Char.ofNat n = (n - 65 + 10).digitChar.toUpper := by decide
  have hc : c = Char.ofNat c.toNat := (Char.ofNat_toNat c).symm
  have hlt16 : value < 16 := of_decide_eq_true hlt
  split at hvalue
  · rename_i hrange
    obtain rfl := Option.some.inj hvalue
    have hlow : 48 ≤ c.toNat := hrange.1
    have hhigh : c.toNat ≤ 57 := hrange.2
    exact Or.inl (hc.trans (hdecimal c.toNat (by omega) hlow))
  · split at hvalue
    · rename_i hrange
      obtain rfl := Option.some.inj hvalue
      have hlow : 97 ≤ c.toNat := hrange.1
      have hbound : c.toNat - 97 + 10 < 16 := hlt16
      exact Or.inl (hc.trans (hlower c.toNat (by omega) hlow))
    · split at hvalue
      · rename_i hrange
        obtain rfl := Option.some.inj hvalue
        have hlow : 65 ≤ c.toNat := hrange.1
        have hbound : c.toNat - 65 + 10 < 16 := hlt16
        exact Or.inr (hc.trans (hupper c.toNat (by omega) hlow))
      · cases hvalue

/-- Exactly the digits of the base have a value. -/
theorem digit?_eq_some_iff (hbase : base ≤ 16) :
    digit? base c = some value ↔ IsDigit base c value := by
  rw [digit?_eq_filter hbase, Option.filter_eq_some_iff, decide_eq_true_eq]
  constructor
  · rintro ⟨hvalue, hlt⟩
    exact ⟨hlt, (isDigit_of_digit? hvalue).2⟩
  · rintro ⟨hlt, hc⟩
    have hdigits : ∀ value < 16, digit? 16 value.digitChar = some value ∧
        digit? 16 value.digitChar.toUpper = some value := by decide
    obtain ⟨hlower, hupper⟩ := hdigits value (Nat.lt_of_lt_of_le hlt hbase)
    refine ⟨?_, hlt⟩
    rcases hc with rfl | rfl
    · exact hlower
    · exact hupper

/-! ## Numerals -/

/-- The digits that are left are put behind the value that has been read. -/
theorem digitsFrom?_eq_some_iff (hbase : base ≤ 16) :
    digitsFrom? base value text = some number ↔
      ∃ values, List.Forall₂ (IsDigit base) text values ∧
        number = Nat.ofDigits base (values.reverse ++ [value]) := by
  induction text generalizing value with
  | nil =>
    rw [digitsFrom?, Option.some.injEq]
    constructor
    · rintro rfl
      exact ⟨[], .nil, Nat.ofDigits_singleton.symm⟩
    · rintro ⟨values, hvalues, rfl⟩
      obtain rfl := List.forall₂_nil_left_iff.1 hvalues
      exact Nat.ofDigits_singleton.symm
  | cons c rest ih =>
    -- The digit read first has the highest place of those that are left.
    have hplace (d : Nat) (values : List Nat) :
        Nat.ofDigits base (values.reverse ++ [value * base + d]) =
          Nat.ofDigits base ((d :: values).reverse ++ [value]) := by
      rw [List.reverse_cons, List.append_assoc, Nat.ofDigits_append, Nat.ofDigits_append,
        Nat.ofDigits_singleton, List.singleton_append, Nat.ofDigits_cons, Nat.ofDigits_singleton,
        Nat.mul_comm value, Nat.add_comm d]
    rw [digitsFrom?]
    cases hdigit : digit? base c with
    | none =>
      refine iff_of_false (by simp) ?_
      rintro ⟨values, hvalues, -⟩
      obtain ⟨d, later, hd, -, rfl⟩ := List.forall₂_cons_left_iff.1 hvalues
      rw [(digit?_eq_some_iff hbase).2 hd] at hdigit
      cases hdigit
    | some d =>
      dsimp only
      rw [ih]
      constructor
      · rintro ⟨values, hvalues, rfl⟩
        exact ⟨d :: values, .cons ((digit?_eq_some_iff hbase).1 hdigit) hvalues, hplace d values⟩
      · rintro ⟨values, hvalues, rfl⟩
        obtain ⟨d', later, hd, hlater, rfl⟩ := List.forall₂_cons_left_iff.1 hvalues
        obtain rfl := Option.some.inj (hdigit.symm.trans ((digit?_eq_some_iff hbase).2 hd))
        exact ⟨later, hlater, (hplace d later).symm⟩

/-- Exactly the numerals are read, each as its number. -/
theorem digits?_eq_some_iff (hbase : base ≤ 16) :
    digits? base text = some number ↔ IsNumeral base text number := by
  cases text with
  | nil =>
    refine iff_of_false (by simp [digits?]) ?_
    intro h
    exact h.ne_nil rfl
  | cons c rest =>
    rw [digits?, digitsFrom?_eq_some_iff hbase]
    -- A leading zero adds nothing to the number.
    have hzero (values : List Nat) :
        Nat.ofDigits base (values.reverse ++ [0]) = Nat.ofDigits base values.reverse := by
      rw [Nat.ofDigits_append, Nat.ofDigits_singleton, Nat.mul_zero, Nat.add_zero]
    simp only [hzero]
    exact ⟨fun h => ⟨List.cons_ne_nil c rest, h⟩, fun h => h.exists_values⟩

/-- A character that is no digit of the base stands in no numeral. -/
theorem IsNumeral.not_mem (h : IsNumeral base digits number)
    (hc : ∀ value < base, c ≠ value.digitChar ∧ c ≠ value.digitChar.toUpper) : c ∉ digits := by
  obtain ⟨values, hvalues, -⟩ := h.exists_values
  clear h
  induction hvalues with
  | nil => exact List.not_mem_nil
  | cons hdigit _ ih =>
    refine List.not_mem_cons_of_ne_of_not_mem ?_ ih
    obtain ⟨hlt, rfl | rfl⟩ := hdigit
    · exact (hc _ hlt).1
    · exact (hc _ hlt).2

/-- A numeral is read as its number, with or without a plus sign, if the number stays below the
limit. -/
theorem numeral?_eq_some_iff (hbase : base ≤ 16) {limit : Nat} :
    numeral? base limit text = some number ↔ number < limit ∧
      ∃ sign ∈ optionalPlus, ∃ digits, text = sign ++ digits ∧ IsNumeral base digits number := by
  unfold numeral?
  dsimp only
  rw [Option.filter_eq_some_iff, digits?_eq_some_iff hbase, decide_eq_true_eq, and_comm]
  refine and_congr_right fun _ => ?_
  constructor
  · intro h
    split at h
    · exact ⟨['+'], by simp [optionalPlus], _, rfl, h⟩
    · exact ⟨[], by simp [optionalPlus], text, rfl, h⟩
  · rintro ⟨sign, hsign, digits, rfl, h⟩
    obtain rfl | rfl : sign = [] ∨ sign = ['+'] := by simpa [optionalPlus] using hsign
    · -- The digits themselves begin with no sign.
      split
      · rename_i rest hplus
        have hsigns : ∀ value < 16, '+' ≠ value.digitChar ∧ '+' ≠ value.digitChar.toUpper := by
          decide
        have hnot := h.not_mem fun value hlt => hsigns value (by omega)
        obtain rfl : digits = '+' :: rest := hplus
        exact absurd List.mem_cons_self hnot
      · exact h
    · exact h

/-- A number is that of a character exactly if it is a scalar value. -/
theorem scalar?_eq_some_iff : scalar? number = some c ↔ c.toNat = number := by
  unfold scalar?
  split
  · rename_i hvalid
    rw [Option.some.injEq]
    constructor
    · rintro rfl
      rw [Char.ofNat, dif_pos hvalid]
      rfl
    · rintro rfl
      exact Char.ofNat_toNat c
  · rename_i hvalid
    refine iff_of_false (by simp) ?_
    rintro rfl
    exact hvalid c.valid

/-! ## Numerals that are written -/

/-- One more digit behind those that have been read. -/
theorem digitsFrom?_concat (base value : Nat) (digits : Text) (c : Char) :
    digitsFrom? base value (digits ++ [c]) =
      (digitsFrom? base value digits).bind fun value =>
        (digit? base c).map fun d => value * base + d := by
  induction digits generalizing value with
  | nil =>
    rw [List.nil_append, digitsFrom?, digitsFrom?]
    cases digit? base c <;> rfl
  | cons first later ih =>
    rw [List.cons_append, digitsFrom?, digitsFrom?]
    cases digit? base first with
    | none => rfl
    | some d => exact ih (value * base + d)

theorem digitsFrom?_toDigits (number : Nat) :
    digitsFrom? 10 0 (Nat.toDigits 10 number) = some number := by
  have hdigit {value : Nat} (h : value < 10) : digit? 10 value.digitChar = some value :=
    (digit?_eq_some_iff (by decide)).2 ⟨h, .inl rfl⟩
  induction number using Nat.strongRecOn with
  | ind number ih =>
    by_cases h : number < 10
    · simp only [Nat.toDigits_of_lt_base h, digitsFrom?, hdigit h, Nat.zero_mul, Nat.zero_add]
    · rw [Nat.toDigits_of_base_le (by decide) (Nat.not_lt.1 h), digitsFrom?_concat,
        ih _ (by omega), hdigit (Nat.mod_lt _ (by decide)), Option.bind_some, Option.map_some,
        Nat.div_add_mod']

/-- The digits in which a number is written are read as this number. -/
theorem digits?_toDigits (number : Nat) : digits? 10 (Nat.toDigits 10 number) = some number := by
  have hne : Nat.toDigits 10 number ≠ [] := Nat.toDigits_ne_nil
  obtain ⟨c, later, hcons⟩ := List.exists_cons_of_ne_nil hne
  rw [hcons, digits?, ← hcons]
  exact digitsFrom?_toDigits number

/-- So they are as a numeral, if the number stays below the limit. -/
theorem numeral?_toDigits {limit : Nat} (h : number < limit) :
    numeral? 10 limit (Nat.toDigits 10 number) = some number := by
  refine (numeral?_eq_some_iff (by decide)).2 ⟨h, [], by simp [optionalPlus], _, rfl, ?_⟩
  exact (digits?_eq_some_iff (by decide)).1 (digits?_toDigits number)

end Retrace.Text
