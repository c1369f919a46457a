import Retrace.Text.Basic

/-!
# Sets of characters

Characters are numbered in their order, leaving out the gap of the surrogates. A set is given by
the numbers at which membership changes, in ascending order, so that two sets are combined by one
sweep over the changes of both. Main statements: a character is in a combined set as the operation
says (`contains_combine`), and in a complement when it is not in the set (`contains_compl`).
-/

namespace Retrace

/-- A set of characters. -/
structure CharSet where
  /-- The numbers of the characters at which membership changes, ascending. The characters before
  the first change are not in the set. -/
  changes : List Nat
  deriving DecidableEq, Repr, Inhabited

namespace CharSet

/-- The number of a code point, without the gap of the surrogates. -/
def indexOfCode (code : Nat) : Nat :=
  if code < 0xD800 then code else code - 0x800

/-- The number of a character. -/
def index (c : Char) : Nat :=
  indexOfCode c.toNat

/-- How many characters there are. -/
def count : Nat := 0x10F800

/-- The character with a number. -/
def charAt (index : Nat) : Char :=
  Char.ofNat (if index < 0xD800 then index else index + 0x800)

/-- The membership of a number behind some changes, where `inside` holds before them. -/
def holds (inside : Bool) (index : Nat) : (changes : List Nat) → Bool
  | [] => inside
  | change :: later => if index < change then inside else holds (!inside) index later

/-- The character is in the set. -/
def contains (set : CharSet) (c : Char) : Bool :=
  holds false (index c) set.changes

/-- No character. -/
def none : CharSet := ⟨[]⟩

/-- Every character. -/
def all : CharSet := ⟨[0]⟩

/-- There is no character in the set. -/
def isEmpty (set : CharSet) : Bool :=
  set.changes.isEmpty

/-- Put the characters from `first` to `last` before later changes. -/
def consRange (first last : Nat) (later : List Nat) : List Nat :=
  if count ≤ last + 1 then [first]
  else match later with
    | change :: others =>
      if change = last + 1 then first :: others else first :: (last + 1) :: later
    | [] => [first, last + 1]

/-- The characters from `first` to `last`. -/
def range (first last : Char) : CharSet :=
  ⟨consRange (index first) (index last) []⟩

/-- A single character. -/
def single (c : Char) : CharSet :=
  range c c

/-- The code points of ascending ranges, which do not overlap. -/
def ofRanges (ranges : List (Nat × Nat)) : CharSet :=
  ⟨ranges.foldr (fun range => consRange (indexOfCode range.1) (indexOfCode range.2)) []⟩

/-- The characters of a list. -/
def ofList (chars : List Char) : CharSet :=
  ⟨((chars.map index).mergeSort fun a b => a ≤ b).foldr add []⟩
where
  /-- Put a number before later changes, unless it starts them. -/
  add (index : Nat) (later : List Nat) : List Nat :=
    if later.head? = some index then later else consRange index index later

/-- Record a change at a place if membership differs before and behind it. -/
def mark (place : Nat) (before behind : Bool) (later : List Nat) : List Nat :=
  if before = behind then later else place :: later

/-- The changes of a combined set; `inA` and `inB` hold before the changes of either set. -/
def sweep (op : Bool → Bool → Bool) (inA inB : Bool) : List Nat → List Nat → List Nat
  | [], [] => []
  | a :: as, [] => mark a (op inA inB) (op (!inA) inB) (sweep op (!inA) inB as [])
  | [], b :: bs => mark b (op inA inB) (op inA (!inB)) (sweep op inA (!inB) [] bs)
  | a :: as, b :: bs =>
    if a < b then mark a (op inA inB) (op (!inA) inB) (sweep op (!inA) inB as (b :: bs))
    else if b < a then mark b (op inA inB) (op inA (!inB)) (sweep op inA (!inB) (a :: as) bs)
    else mark a (op inA inB) (op (!inA) (!inB)) (sweep op (!inA) (!inB) as bs)
termination_by as bs => as.length + bs.length

/-- The set of the characters whose memberships in two sets satisfy `op`, which does not hold of
characters in neither. -/
def combine (op : Bool → Bool → Bool) (a b : CharSet) : CharSet :=
  ⟨sweep op false false a.changes b.changes⟩

/-- The characters of either set. -/
def union (a b : CharSet) : CharSet :=
  a.combine or b

/-- The characters of both sets. -/
def inter (a b : CharSet) : CharSet :=
  a.combine and b

/-- The characters of the first set that are not in the second. -/
def diff (a b : CharSet) : CharSet :=
  a.combine (fun inA inB => inA && !inB) b

/-- The characters of exactly one of two sets. -/
def symmDiff (a b : CharSet) : CharSet :=
  a.combine xor b

/-- The characters outside a set. -/
def compl (set : CharSet) : CharSet :=
  match set.changes with
  | 0 :: later => ⟨later⟩
  | changes => ⟨0 :: changes⟩

/-- The union of several sets. -/
def unions (sets : List CharSet) : CharSet :=
  sets.foldl union none

/-- The ranges of a set, as numbers of first and last characters. -/
def ranges (set : CharSet) : List (Nat × Nat) :=
  pairs set.changes
where
  /-- The ranges between changes. -/
  pairs : List Nat → List (Nat × Nat)
    | [] => []
    | [first] => [(first, count - 1)]
    | first :: behind :: later => (first, behind - 1) :: pairs later

/-- The only character of a set. -/
def single? (set : CharSet) : Option Char :=
  match set.ranges with
  | [(first, last)] => if first = last then some (charAt first) else Option.none
  | _ => Option.none

/-- All characters of the set are ASCII. -/
def isAscii (set : CharSet) : Bool :=
  set.ranges.all fun range => range.2 < 128

/-- A change of membership changes it for all numbers. -/
theorem holds_not (inside : Bool) (index : Nat) (changes : List Nat) :
    holds (!inside) index changes = !holds inside index changes := by
  induction changes generalizing inside with
  | nil => rfl
  | cons change later ih =>
    simp only [holds, ih]
    split <;> rfl

/-- Numbers before the first change keep the membership that holds before it. -/
theorem holds_cons_of_lt {inside : Bool} {index change : Nat} {later : List Nat}
    (h : index < change) : holds inside index (change :: later) = inside :=
  if_pos h

/-- They are before all later changes as well. -/
theorem holds_of_pairwise {inside : Bool} {index change : Nat} {later : List Nat}
    (hchanges : (change :: later).Pairwise (· < ·)) (h : index < change) :
    holds inside index later = inside := by
  cases later with
  | nil => rfl
  | cons next later =>
    have hnext : change < next := List.rel_of_pairwise_cons hchanges List.mem_cons_self
    exact holds_cons_of_lt (Nat.lt_trans h hnext)

/-- A place that is marked where membership changes tells it on both sides. -/
theorem holds_mark {place index : Nat} {before behind : Bool} {later : List Nat}
    (h : index < place → holds behind index later = behind) :
    holds before index (mark place before behind later) =
      if index < place then before else holds behind index later := by
  unfold mark
  split
  · rename_i hsame
    subst hsame
    split
    · rename_i hlt
      exact h hlt
    · rfl
  · rename_i hdiff
    have : behind = !before := by revert hdiff; cases before <;> cases behind <;> simp
    subst this
    rfl

/-- The changes found by a sweep tell the combined membership. -/
theorem holds_sweep (op : Bool → Bool → Bool) (inA inB : Bool) (index : Nat) (as bs : List Nat)
    (ha : as.Pairwise (· < ·)) (hb : bs.Pairwise (· < ·)) :
    holds (op inA inB) index (sweep op inA inB as bs) =
      op (holds inA index as) (holds inB index bs) := by
  -- In each case the numbers before the change that is taken first keep their membership, and the
  -- others have the one that the rest of the sweep tells.
  fun_induction sweep op inA inB as bs with
  | case1 => rfl
  | case2 inA inB a as ih =>
    have ih := ih ha.of_cons hb
    have hbehind (h : index < a) :
        holds (op (!inA) inB) index (sweep op (!inA) inB as []) = op (!inA) inB := by
      rw [ih, holds_of_pairwise ha h, holds]
    rw [holds_mark hbehind, ih]
    simp only [holds]
    split <;> rfl
  | case3 inA inB b bs ih =>
    have ih := ih ha hb.of_cons
    have hbehind (h : index < b) :
        holds (op inA (!inB)) index (sweep op inA (!inB) [] bs) = op inA (!inB) := by
      rw [ih, holds_of_pairwise hb h, holds]
    rw [holds_mark hbehind, ih]
    simp only [holds]
    split <;> rfl
  | case4 inA inB a as b bs hab ih =>
    have ih := ih ha.of_cons hb
    have hbehind (h : index < a) :
        holds (op (!inA) inB) index (sweep op (!inA) inB as (b :: bs)) = op (!inA) inB := by
      rw [ih, holds_of_pairwise ha h, holds_cons_of_lt (Nat.lt_trans h hab)]
    rw [holds_mark hbehind, ih]
    by_cases h : index < a
    · rw [if_pos h, holds_cons_of_lt h, holds_cons_of_lt (Nat.lt_trans h hab)]
    · simp only [holds, if_neg h]
  | case5 inA inB a as b bs hab hba ih =>
    have ih := ih ha hb.of_cons
    have hbehind (h : index < b) :
        holds (op inA (!inB)) index (sweep op inA (!inB) (a :: as) bs) = op inA (!inB) := by
      rw [ih, holds_of_pairwise hb h, holds_cons_of_lt (Nat.lt_trans h hba)]
    rw [holds_mark hbehind, ih]
    by_cases h : index < b
    · rw [if_pos h, holds_cons_of_lt h, holds_cons_of_lt (Nat.lt_trans h hba)]
    · simp only [holds, if_neg h]
  | case6 inA inB a as b bs hab hba ih =>
    obtain rfl : a = b := by omega
    have ih := ih ha.of_cons hb.of_cons
    have hbehind (h : index < a) :
        holds (op (!inA) (!inB)) index (sweep op (!inA) (!inB) as bs) = op (!inA) (!inB) := by
      rw [ih, holds_of_pairwise ha h, holds_of_pairwise hb h]
    rw [holds_mark hbehind, ih]
    simp only [holds]
    split <;> rfl

/-- A character is in a combined set as the operation says. -/
theorem contains_combine {op : Bool → Bool → Bool} (hop : op false false = false) {a b : CharSet}
    (ha : a.changes.Pairwise (· < ·)) (hb : b.changes.Pairwise (· < ·)) (c : Char) :
    (a.combine op b).contains c = op (a.contains c) (b.contains c) := by
  have h := holds_sweep op false false (index c) a.changes b.changes ha hb
  rw [hop] at h
  exact h

/-- A character is in the complement of a set when it is not in the set. -/
theorem contains_compl (set : CharSet) (c : Char) : set.compl.contains c = !set.contains c := by
  unfold compl contains
  split
  · rename_i later h
    simp only [h, holds, Nat.not_lt_zero, if_false]
    rw [show (!false) = true from rfl, ← Bool.not_not (holds false (index c) later),
      ← holds_not false]
    rfl
  · simp only [holds, Nat.not_lt_zero, if_false]
    exact holds_not false (index c) set.changes

end CharSet

end Retrace
