/-!
# Texts measured in bytes

A text is a list of Unicode scalar values. Positions in a text are counted in the bytes of its
UTF-8 form, so `Text.split n` cuts at the last character boundary that is not above `n` and
`Text.IsBoundary` singles out the offsets at which nothing is rounded.

All functions here run in constant stack space on long texts.
-/

namespace Retrace

/-- A sequence of Unicode scalar values. -/
abbrev Text := List Char

namespace Text

/-- Count the bytes of the UTF-8 form of a text. -/
def size (text : Text) : Nat :=
  text.foldl (fun total c => total + c.utf8Size) 0

/-- Worker of `split`: `taken` holds the characters cut off so far, the last one first. -/
def splitInto (taken : Text) : Nat → Text → Text × Text
  | _, [] => (taken.reverse, [])
  | bytes, c :: rest =>
    if c.utf8Size ≤ bytes then splitInto (c :: taken) (bytes - c.utf8Size) rest
    else (taken.reverse, c :: rest)

/-- Cut a text after the longest run of whole characters that fits into `bytes` bytes. -/
def split (bytes : Nat) (text : Text) : Text × Text :=
  splitInto [] bytes text

/-- Keep the whole characters that fit into the first `bytes` bytes. -/
def upTo (bytes : Nat) (text : Text) : Text :=
  (split bytes text).1

/-- Drop the whole characters that fit into the first `bytes` bytes. -/
def since : (bytes : Nat) → Text → Text
  | _, [] => []
  | bytes, c :: rest =>
    if c.utf8Size ≤ bytes then since (bytes - c.utf8Size) rest else c :: rest

/-- The characters between two byte offsets. -/
def slice (start stop : Nat) (text : Text) : Text :=
  upTo (stop - start) (since start text)

/-- An offset is a boundary when some run of leading characters has exactly that many bytes. -/
def IsBoundary (text : Text) (offset : Nat) : Prop :=
  size (upTo offset text) = offset

/-- Some run of leading characters has exactly `offset` bytes. -/
def reaches : (offset : Nat) → Text → Bool
  | 0, _ => true
  | _, [] => false
  | offset, c :: rest => c.utf8Size ≤ offset && reaches (offset - c.utf8Size) rest

/-- Worker of `find?`: `passed` is the byte offset of the text that is left. -/
def findFrom (needle : Text) (passed : Nat) : Text → Option Nat
  | [] => if needle.isEmpty then some passed else none
  | c :: rest =>
    if needle.isPrefixOf (c :: rest) then some passed
    else findFrom needle (passed + c.utf8Size) rest

/-- The byte offset of the first occurrence of `needle`. -/
def find? (needle text : Text) : Option Nat :=
  findFrom needle 0 text

/-! ## Sizes add up -/

theorem foldl_size (text : Text) (total : Nat) :
    text.foldl (fun total c => total + c.utf8Size) total = total + size text := by
  induction text generalizing total with
  | nil => rfl
  | cons c rest ih =>
    show rest.foldl _ (total + c.utf8Size) = total + rest.foldl _ (0 + c.utf8Size)
    rw [ih, ih (0 + c.utf8Size)]
    omega

@[simp] theorem size_nil : size [] = 0 := rfl

@[simp] theorem size_cons (c : Char) (rest : Text) : size (c :: rest) = c.utf8Size + size rest := by
  show rest.foldl _ (0 + c.utf8Size) = _
  rw [foldl_size, Nat.zero_add]

@[simp] theorem size_append (front back : Text) :
    size (front ++ back) = size front + size back := by
  induction front with
  | nil => simp
  | cons c rest ih => simp [ih]; omega

/-! ## Cutting -/

theorem splitInto_eq (taken : Text) (bytes : Nat) (text : Text) :
    splitInto taken bytes text = (taken.reverse ++ upTo bytes text, since bytes text) := by
  induction text generalizing taken bytes with
  | nil => simp [splitInto, upTo, split, since]
  | cons c rest ih =>
    simp only [upTo, split, splitInto, since]
    split
    · rw [ih, ih [c]]; simp
    · simp

/-- Cutting a text gives what fits and what is left. -/
theorem split_eq (bytes : Nat) (text : Text) :
    split bytes text = (upTo bytes text, since bytes text) := by
  simpa [split] using splitInto_eq [] bytes text

@[simp] theorem upTo_nil (bytes : Nat) : upTo bytes [] = [] := rfl

theorem upTo_cons (bytes : Nat) (c : Char) (rest : Text) :
    upTo bytes (c :: rest) =
      if c.utf8Size ≤ bytes then c :: upTo (bytes - c.utf8Size) rest else [] := by
  simp only [upTo, split, splitInto]
  split
  · rw [splitInto_eq]; rfl
  · rfl

/-- Cutting a text loses nothing. -/
theorem upTo_append_since (bytes : Nat) (text : Text) :
    upTo bytes text ++ since bytes text = text := by
  induction text generalizing bytes with
  | nil => rfl
  | cons c rest ih =>
    rw [upTo_cons, since]
    split
    · rw [List.cons_append, ih]
    · rfl

/-- The offsets that are reached by whole characters are the boundaries. -/
theorem reaches_iff (offset : Nat) (text : Text) :
    reaches offset text = true ↔ text.IsBoundary offset := by
  induction text generalizing offset with
  | nil => cases offset <;> simp [reaches, IsBoundary]
  | cons c rest ih =>
    have hc : 0 < c.utf8Size := Char.utf8Size_pos c
    rw [IsBoundary, upTo_cons]
    cases offset with
    | zero => simp [reaches, Nat.not_le.2 hc]
    | succ offset =>
      rw [reaches, Bool.and_eq_true, decide_eq_true_eq, ih, IsBoundary]
      · split <;> simp <;> omega
      · simp

instance (text : Text) (offset : Nat) : Decidable (text.IsBoundary offset) :=
  decidable_of_iff _ (reaches_iff offset text)

end Text

end Retrace
