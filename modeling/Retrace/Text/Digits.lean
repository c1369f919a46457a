import Retrace.Text.Basic

/-!
# Reading numbers

Digits are the ASCII digits and, beyond base ten, the ASCII letters of either case. A numeral is
read exactly, whatever its length; `Text.numeral?` adds the optional plus sign and the upper bound
that numbers held in a machine word have.
-/

namespace Retrace.Text

/-- The value of a digit in a base of at most thirty-six. -/
def digit? (base : Nat) (c : Char) : Option Nat :=
  let value? : Option Nat :=
    if '0' ≤ c ∧ c ≤ '9' then some (c.toNat - '0'.toNat)
    else if 'a' ≤ c ∧ c ≤ 'z' then some (c.toNat - 'a'.toNat + 10)
    else if 'A' ≤ c ∧ c ≤ 'Z' then some (c.toNat - 'A'.toNat + 10)
    else none
  value?.filter (· < base)

/-- Read a nonempty run of digits, with the value read so far in front of it. -/
def digitsFrom? (base : Nat) (value : Nat) : Text → Option Nat
  | [] => some value
  | c :: rest =>
    match digit? base c with
    | some d => digitsFrom? base (value * base + d) rest
    | none => none

/-- Read a text that consists of at least one digit and nothing else. -/
def digits? (base : Nat) : Text → Option Nat
  | [] => none
  | c :: rest => digitsFrom? base 0 (c :: rest)

/-- Read digits after an optional plus sign, refusing values of `limit` and above. -/
def numeral? (base limit : Nat) (text : Text) : Option Nat :=
  let digits := match text with
    | '+' :: rest => rest
    | _ => text
  (digits? base digits).filter (· < limit)

/-- The character with a number, if there is one. -/
def scalar? (number : Nat) : Option Char :=
  if number.isValidChar then some (Char.ofNat number) else none

end Retrace.Text
