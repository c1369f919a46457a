import Retrace.CharSet

/-!
# Byte forms of ranges

In UTF-8 a character takes one to four bytes. The byte sequences of a range of characters are those
of a few forms, each of which gives a range for every byte.
-/

namespace Retrace.Unicode.Encoding

/-- A range for every byte. -/
abbrev Form := List (Nat × Nat)

/-- The bytes of a code point. -/
def bytes (code : Nat) : List Nat :=
  if code < 0x80 then [code]
  else if code < 0x800 then [0xC0 + code / 0x40, tail code]
  else if code < 0x10000 then [0xE0 + code / 0x1000, tail (code / 0x40), tail code]
  else [0xF0 + code / 0x40000, tail (code / 0x1000), tail (code / 0x40), tail code]
where
  /-- The last byte of a longer sequence. -/
  tail (code : Nat) : Nat := 0x80 + code % 0x40

/-- The form of the code points between two that have the same number of bytes and that differ in
bytes behind which every byte runs over all its values. -/
def form (first last : Nat) : Form :=
  (bytes first).zip (bytes last)

/-- The forms of the code points between two that have the same number of bytes. What lies in an
incomplete block of `block` code points at either end has a form of its own; what is left consists
of whole blocks. -/
def aligned : (levels : Nat) → (block first last : Nat) → List Form
  | 0, _, first, last => [form first last]
  | levels + 1, block, first, last =>
    if first / block = last / block then [form first last]
    else
      let nextBlock := (first + block - 1) / block * block
      let lastBlock := (last + 1) / block * block
      let front := if first < nextBlock then [form first (nextBlock - 1)] else []
      let back := if lastBlock ≤ last then [form lastBlock last] else []
      let middle :=
        if nextBlock < lastBlock then aligned levels (block * 0x40) nextBlock (lastBlock - 1)
        else []
      front ++ middle ++ back

/-- The ranges of code points whose bytes are equally many, without the surrogates. -/
def lengths : List (Nat × Nat) := [
  (0, 0x7F), (0x80, 0x7FF), (0x800, 0xD7FF), (0xE000, 0xFFFF), (0x10000, 0x10FFFF)]

/-- The forms of the code points from `first` to `last`, in order. -/
def forms (first last : Nat) : List Form :=
  lengths.flatMap fun (low, high) =>
    let first := max first low
    let last := min last high
    if first ≤ last then aligned 3 0x40 first last else []

/-- The forms of the characters of a set, in order. -/
def formsOf (set : CharSet) : List Form :=
  set.ranges.flatMap fun (first, last) =>
    forms (CharSet.charAt first).toNat (CharSet.charAt last).toNat

end Retrace.Unicode.Encoding
