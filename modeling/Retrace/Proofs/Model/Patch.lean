import Retrace.Model.Writer
import Retrace.Proofs.Text.Boundary

/-!
# Patches in order

The patches of a document change it at places that lie one behind the other. `Patch.Turns` follows
the text from place to place: what stands between two of them is kept, and each patch puts its text
in place of what it covers. Patches with this property need not be sorted and are applied without
fault, so it is enough to find such a description of a change, and it can be put together from
descriptions of parts of the text.

## Main definitions

* `Patch.Turns`: some patches turn a text that begins at some offset into another.

## Main results

* `Patch.Turns.append`: descriptions of two parts of a text make one of the whole;
* `Patch.applyFrom_of_turns`, `Patch.mergeSort_of_turns`: the patches are applied as described.
-/

namespace Retrace.Patch

/-- The same patch of a text that begins further behind. -/
def shift (bytes : Nat) (patch : Patch) : Patch :=
  { patch with span := patch.span.shift bytes }

/-- The patches, in this order, turn the text `old`, which begins at `offset`, into `new`. -/
inductive Turns : (patches : List Patch) → (offset : Nat) → (old new : Text) → Prop where
  /-- Without a patch the text is kept. -/
  | keep {offset : Nat} (text : Text) : Turns [] offset text text
  /-- Some text is kept, then a piece is replaced. -/
  | replace {later : List Patch} {offset start stop : Nat} (kept covered put : Text)
      {old new : Text} : start = offset + Text.size kept → stop = start + Text.size covered →
    Turns later stop old new →
    Turns (⟨⟨start, stop⟩, put⟩ :: later) offset (kept ++ (covered ++ old)) (kept ++ (put ++ new))

namespace Turns

variable {patches patches' : List Patch} {offset offset' : Nat} {old new old' new' : Text}

/-- More text may be kept in front. -/
theorem prepend (h : Turns patches (offset + Text.size old') old new) :
    Turns patches offset (old' ++ old) (old' ++ new) := by
  cases h with
  | keep text => exact .keep _
  | replace kept covered put hstart hstop hlater =>
    rw [← List.append_assoc old', ← List.append_assoc old']
    refine .replace (old' ++ kept) covered put ?_ hstop hlater
    rw [hstart, Text.size_append, Nat.add_assoc]

/-- Changes of two parts of a text make a change of the whole. -/
theorem append (h : Turns patches offset old new)
    (h' : Turns patches' (offset + Text.size old) old' new') :
    Turns (patches ++ patches') offset (old ++ old') (new ++ new') := by
  induction h with
  | keep text => exact h'.prepend
  | @replace later offset start stop kept covered put old new hstart hstop hlater ih =>
    -- What is left behind the first patch ends where the first part does.
    have hend : offset + Text.size (kept ++ (covered ++ old)) = stop + Text.size old := by
      rw [Text.size_append, Text.size_append]
      omega
    rw [hend] at h'
    simp only [List.append_assoc, List.cons_append]
    exact .replace kept covered put hstart hstop (ih h')

/-- The same change may be made further behind. -/
theorem shift (h : Turns patches offset old new) (bytes : Nat) :
    Turns (patches.map (Patch.shift bytes)) (offset + bytes) old new := by
  induction h with
  | keep text => exact .keep text
  | @replace later offset start stop kept covered put old new hstart hstop hlater ih =>
    refine .replace kept covered put ?_ ?_ ih
    · show start + bytes = _
      omega
    · show stop + bytes = start + bytes + _
      omega

/-- A change between a front and a back, followed by a change of what comes behind the back. -/
theorem between {front middle middle' back : Text}
    (h : Turns patches (offset + Text.size front) middle middle')
    (h' : Turns patches' (offset + Text.size front + Text.size middle + Text.size back) old new) :
    Turns (patches ++ patches') offset (front ++ (middle ++ (back ++ old)))
      (front ++ (middle' ++ (back ++ new))) := by
  refine prepend (h.append (prepend ?_))
  exact h'

/-- One patch replaces a piece of the text. -/
theorem single {start stop : Nat} (kept covered put rest : Text)
    (hstart : start = offset + Text.size kept) (hstop : stop = start + Text.size covered) :
    Turns [⟨⟨start, stop⟩, put⟩] offset (kept ++ (covered ++ rest)) (kept ++ (put ++ rest)) :=
  .replace kept covered put hstart hstop (.keep rest)

/-- No patch begins before the text. -/
theorem offset_le (h : Turns patches offset old new) :
    ∀ patch ∈ patches, offset ≤ patch.span.start := by
  induction h with
  | keep text => simp
  | @replace later offset start stop kept covered put old new hstart hstop hlater ih =>
    refine List.forall_mem_cons.2 ⟨?_, ?_⟩
    · show offset ≤ start
      omega
    · intro patch hpatch
      have hle := ih patch hpatch
      omega

/-- The patches begin one behind the other. -/
theorem pairwise (h : Turns patches offset old new) :
    patches.Pairwise fun a b => a.span.start ≤ b.span.start := by
  induction h with
  | keep text => exact List.Pairwise.nil
  | @replace later offset start stop kept covered put old new hstart hstop hlater ih =>
    refine List.Pairwise.cons ?_ ih
    intro patch hpatch
    have hle := hlater.offset_le patch hpatch
    show start ≤ patch.span.start
    omega

end Turns

variable {patches : List Patch} {offset : Nat} {old new : Text}

/-- Patches that come in order stay in this order. -/
theorem mergeSort_of_turns (h : Turns patches offset old new) :
    patches.mergeSort (fun a b => a.span.start ≤ b.span.start) = patches := by
  apply List.mergeSort_of_pairwise
  simpa using h.pairwise

/-- Patches that turn a text into another are applied without fault. -/
theorem applyFrom_of_turns (h : Turns patches offset old new) :
    applyFrom offset patches old = .ok new := by
  induction h with
  | keep text => rfl
  | @replace later offset start stop kept covered put old new hstart hstop hlater ih =>
    -- The patch lies within what is left of the text.
    have hfits : ¬ (start < offset ∨
        offset + Text.size (kept ++ (covered ++ old)) < stop) := by
      rw [Text.size_append, Text.size_append]
      omega
    have hkept : start - offset = Text.size kept := by omega
    have hcovered : Span.length ⟨start, stop⟩ = Text.size covered := by
      show stop - start = Text.size covered
      omega
    rw [applyFrom]
    dsimp only
    rw [if_neg hfits, hkept, Text.split_eq, Text.upTo_append, Text.since_append]
    dsimp only
    rw [hcovered, Text.since_append, ih]

end Retrace.Patch
