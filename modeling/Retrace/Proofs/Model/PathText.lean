import Mathlib.Data.List.Induction
import Retrace.Proofs.Model.Paths
import Retrace.Proofs.Text.Digits

/-!
# Paths are read back

A path is made by going down from the root, one segment at a time, and nothing keeps its maker from
numbering a segment that stands once or from leaving out a number. The text of a path falls into the
texts of its segments at the slashes (`splitOn_text`), and each of these is read as the segment it
came from unless this segment is faulty (`readSegment_render`). So the path is read back exactly if
all of its segments are numbered as their kinds ask for, and otherwise the first that is not is
blamed (`read_text`).

A text may spell the numbers of a path in other ways, with a sign or with zeros in front. What is
read off it is still a path that was made by going down from the root, so its own text is one that
is read back (`built_of_read`).

## Main definitions

* `Segment.fault?`: what the reader finds wrong with a segment;
* `Path.Built`: the paths that are made by going down from the root.

## Main results

* `Path.read_of_built`: which of these paths are read back.
-/

namespace Retrace

/-! ## Segments -/

namespace Segment

variable {path : Text} {segment : Segment}

/-- What the reader of a path finds wrong with the text of a segment: its number is zero, or it has
one although its kind does not repeat, or none although it does. -/
def fault? (path : Text) (segment : Segment) : Option PathError :=
  if segment.index = some 0 then some (.zeroIndex path)
  else if segment.kind.repeats = segment.index.isSome then none
  else if segment.kind.repeats then some (.missingIndex segment.render path)
  else some (.needlessIndex segment.render path)

/-- Nothing is wrong with the segments that are numbered as their kinds ask for. -/
theorem fault?_eq_none_iff : segment.fault? path = none ↔ segment.Numbered := by
  unfold fault?
  constructor
  · intro h
    -- A zero is found before anything else, so there is none where the kind is looked at.
    split at h
    · cases h
    · rename_i hzero
      split at h
      · rename_i hrepeats
        exact ⟨hrepeats, hzero⟩
      · split at h <;> cases h
  · intro h
    rw [if_neg h.index_ne, if_pos h.repeats_eq]

end Segment

namespace Path

variable {path text : Text} {segment : Segment} {segments : List Segment}

theorem readIndex_toDigits {index : Nat} (h : index < indexLimit) (written : Text) :
    readIndex path written (Nat.toDigits 10 index ++ [']']) =
      if index = 0 then .error (.zeroIndex path) else .ok index := by
  have hlast : ¬ (Nat.toDigits 10 index ++ [']']).getLast? ≠ some ']' := by
    rw [List.getLast?_concat]
    exact not_not.2 rfl
  rw [readIndex, if_neg hlast, List.dropLast_concat, Text.numeral?_toDigits h]
  cases index with
  | zero => rfl
  | succ index => rfl

/-- The text of a segment is cut at the bracket, which its kind does not contain. -/
theorem splitSegment_render (h : segment.Bounded) :
    splitSegment path segment.render =
      if segment.index = some 0 then .error (.zeroIndex path)
      else .ok (segment.kind.tag.toList, segment.index) := by
  obtain ⟨kind, index⟩ := segment
  have hkind : kind.tag.toList.all (· ≠ '[') = true :=
    List.all_eq_true.2 fun c hc => decide_eq_true fun heq => kind.not_mem_tag.2 (heq ▸ hc)
  cases index with
  | none =>
    have hdrop := Text.dropWhile_append hkind (Text.stops_nil _)
    rw [List.append_nil] at hdrop
    simp only [Segment.render, splitSegment, List.append_nil, hdrop, reduceCtorEq, if_false]
  | some index =>
    -- The bracket ends the kind, and what is behind it is read as the number.
    have hstops : Text.Stops (· ≠ '[') ('[' :: (Nat.toDigits 10 index ++ [']'])) :=
      Text.stops_cons.2 (by decide)
    simp only [Segment.render, splitSegment, List.cons_append, Text.dropWhile_append hkind hstops,
      Text.takeWhile_append hkind hstops, readIndex_toDigits (h index rfl), Option.some.injEq]
    split <;> rfl

/-- The text of a segment is read as this segment unless something is wrong with it. -/
theorem readSegment_render (h : segment.Bounded) :
    readSegment path segment.render =
      match segment.fault? path with
      | some error => .error error
      | none => .ok segment := by
  rw [readSegment, splitSegment_render h, Segment.fault?]
  by_cases hzero : segment.index = some 0
  · rw [if_pos hzero, if_pos hzero]
  · rw [if_neg hzero, if_neg hzero]
    dsimp only
    rw [NodeKind.ofTag?_tag]
    dsimp only
    split
    · rfl
    · split <;> rfl

/-- The segments are read one after the other, up to the first with which something is wrong. -/
theorem mapM_readSegment_render (h : ∀ segment ∈ segments, segment.Bounded) :
    (segments.map Segment.render).mapM (readSegment path) =
      match segments.findSome? (Segment.fault? path) with
      | some error => .error error
      | none => .ok segments := by
  induction segments with
  | nil => rfl
  | cons first later ih =>
    obtain ⟨hfirst, hlater⟩ := List.forall_mem_cons.1 h
    rw [List.map_cons, List.mapM_cons, readSegment_render hfirst, ih hlater, List.findSome?_cons]
    -- The later segments are read only if nothing is wrong with the first.
    cases first.fault? path with
    | some error => rfl
    | none => cases later.findSome? (Segment.fault? path) <;> rfl

/-! ## Paths -/

/-- The paths that are made by going down from the root, with numbers that fit into a machine
word. -/
inductive Built : Path → Prop
  | root : Built root
  | child {path : Path} (kind : NodeKind) {index : Option Nat} :
      Built path → (∀ number ∈ index, number < indexLimit) → Built (path.child kind index)

/-- Such a path begins with the root, and its numbers fit into machine words. -/
theorem Built.segments_eq {path : Path} (h : path.Built) :
    ∃ later, path.segments = Path.root.segments ++ later ∧ ∀ segment ∈ later, segment.Bounded := by
  induction h with
  | root => exact ⟨[], rfl, fun _ h => (List.not_mem_nil h).elim⟩
  | child kind _ hindex ih =>
    obtain ⟨later, hsegments, hbounded⟩ := ih
    refine ⟨later ++ [⟨kind, _⟩], by rw [Path.child, hsegments, List.append_assoc], ?_⟩
    exact List.forall_mem_append.2 ⟨hbounded, List.forall_mem_singleton.2 hindex⟩

/-- Whatever begins with the root is made by going down from it. -/
theorem built_of_segments_eq {path : Path} {later : List Segment}
    (hsegments : path.segments = Path.root.segments ++ later)
    (hbounded : ∀ segment ∈ later, segment.Bounded) : path.Built := by
  obtain ⟨segments⟩ := path
  obtain rfl : segments = Path.root.segments ++ later := hsegments
  -- The last segment is the last step down.
  induction later using List.reverseRecOn with
  | nil => exact .root
  | append_singleton later segment ih =>
    obtain ⟨hlater, hsegment⟩ := List.forall_mem_append.1 hbounded
    have hchild := Built.child segment.kind (ih hlater) (List.forall_mem_singleton.1 hsegment)
    rwa [child, List.append_assoc] at hchild

/-- At its slashes a path falls into the texts of its segments. -/
theorem splitOn_text (first : Segment) (later : List Segment) :
    ∃ rest, Path.text ⟨first :: later⟩ = '/' :: rest ∧
      rest.splitOn '/' = (first :: later).map Segment.render := by
  refine ⟨first.render ++ Path.text ⟨later⟩, rfl, ?_⟩
  induction later generalizing first with
  | nil =>
    rw [show Path.text ⟨[]⟩ = [] from rfl, List.append_nil,
      List.splitOn_eq_singleton first.slash_not_mem_render]
    rfl
  | cons second others ih =>
    -- The first slash is the one behind the first segment, as a segment has none.
    have htext : Path.text ⟨second :: others⟩ = '/' :: (second.render ++ Path.text ⟨others⟩) := rfl
    rw [htext, List.splitOn_append_cons_self_of_not_mem first.slash_not_mem_render, ih]
    rfl

/-- The text of a path that was made by going down from the root is read as this path, or the first
of its segments with which something is wrong is blamed. -/
theorem read_text {path : Path} (h : path.Built) :
    Path.read path.text =
      match path.segments.findSome? (Segment.fault? path.text) with
      | some error => .error error
      | none => .ok path := by
  obtain ⟨later, hsegments, hbounded⟩ := h.segments_eq
  obtain ⟨segments⟩ := path
  obtain rfl : segments = ⟨.nta, none⟩ :: later := hsegments
  obtain ⟨rest, htext, hsplit⟩ := splitOn_text ⟨.nta, none⟩ later
  have hall : ∀ segment ∈ ⟨.nta, none⟩ :: later, segment.Bounded :=
    List.forall_mem_cons.2 ⟨nofun, hbounded⟩
  rw [htext, Path.read]
  dsimp only
  rw [hsplit, mapM_readSegment_render hall]
  -- The first segment is the root.
  cases (⟨.nta, none⟩ :: later).findSome? (Segment.fault? ('/' :: rest)) <;> rfl

/-- What is read off a text is a path that is made by going down from the root, and all of its
segments are numbered as their kinds ask for. -/
theorem built_of_read {path : Path} (h : Path.read text = .ok path) :
    path.Built ∧ ∀ segment ∈ path.segments, segment.Numbered := by
  obtain ⟨later, hsegments, hlater⟩ := exists_segments_of_read h
  refine ⟨built_of_segments_eq hsegments fun segment hsegment => (hlater segment hsegment).2, ?_⟩
  rw [hsegments]
  exact List.forall_mem_append.2 ⟨List.forall_mem_singleton.2 ⟨rfl, nofun⟩,
    fun segment hsegment => (hlater segment hsegment).1⟩

/-- Nothing is wrong with a path exactly if its segments are numbered as their kinds ask for. -/
theorem findSome?_fault?_eq_none_iff {path : Path} :
    path.segments.findSome? (Segment.fault? path.text) = none ↔
      ∀ segment ∈ path.segments, segment.Numbered := by
  simp only [List.findSome?_eq_none_iff, Segment.fault?_eq_none_iff]

/-- A path that was made by going down from the root is read back exactly if every segment has a
number just when its kind repeats and no number is zero; if not, reading its text fails, and what is
wrong with the first segment that is numbered otherwise is the reason. No two paths have the same
text. And whatever text a path was read off, it is read off its own text again. -/
theorem read_of_built :
    (∀ {path : Path}, path.Built →
      (Path.read path.text = .ok path ↔ ∀ segment ∈ path.segments, segment.Numbered) ∧
      ((¬ ∀ segment ∈ path.segments, segment.Numbered) → ∃ error,
        path.segments.findSome? (Segment.fault? path.text) = some error ∧
        Path.read path.text = .error error)) ∧
    (∀ {first second : Path}, first.render = second.render → first = second) ∧
    ∀ {text : Text} {path : Path}, Path.read text = .ok path →
      Path.read path.text = .ok path := by
  have hback {path : Path} (hbuilt : path.Built)
      (hnumbered : ∀ segment ∈ path.segments, segment.Numbered) :
      Path.read path.text = .ok path := by
    rw [read_text hbuilt, findSome?_fault?_eq_none_iff.2 hnumbered]
  refine ⟨fun {path} hbuilt => ⟨⟨fun hread => (built_of_read hread).2, hback hbuilt⟩,
    fun hnot => ?_⟩, render_injective, fun hread => ?_⟩
  · obtain ⟨error, hfault⟩ := Option.ne_none_iff_exists'.1 (mt findSome?_fault?_eq_none_iff.1 hnot)
    exact ⟨error, hfault, by rw [read_text hbuilt, hfault]⟩
  · obtain ⟨hbuilt, hnumbered⟩ := built_of_read hread
    exact hback hbuilt hnumbered

/-- The declarations of a template that has the greatest number there is. -/
def farthest : Path :=
  (root.child .template (some 18446744073709551615)).child .declaration none

/-- A label without a number in a transition with the number zero. -/
def unnumbered : Path :=
  ((root.child .template (some 1)).child .transition (some 0)).child .label none

/-- The first path is read back, also from a text that spells its number with a sign and a zero; in
the second one, the zero is blamed. -/
theorem read_of_built_farthest :
    farthest.Built ∧ Path.read farthest.text = .ok farthest ∧
      Path.read "/nta/template[+018446744073709551615]/declaration".toList = .ok farthest ∧
      unnumbered.Built ∧ (¬ ∀ segment ∈ unnumbered.segments, segment.Numbered) ∧
      Path.read unnumbered.text = .error (.zeroIndex unnumbered.text) := by
  obtain ⟨hbuilt, -, hagain⟩ := read_of_built
  have hspelled : Path.read "/nta/template[+018446744073709551615]/declaration".toList =
      .ok farthest := by
    rw [← Except.toOption_eq_some]
    decide +kernel
  have hfarthest : farthest.Built :=
    .child .declaration (.child .template .root (by decide)) nofun
  have hunnumbered : unnumbered.Built :=
    .child .label (.child .transition (.child .template .root (by decide)) (by decide)) nofun
  have hnot : ¬ ∀ segment ∈ unnumbered.segments, segment.Numbered := fun h =>
    (h ⟨.transition, some 0⟩ (by decide)).index_ne rfl
  obtain ⟨error, hfault, hread⟩ := (hbuilt hunnumbered).2 hnot
  obtain rfl : PathError.zeroIndex unnumbered.text = error := Option.some.inj hfault
  exact ⟨hfarthest, hagain hspelled, hspelled, hunnumbered, hnot, hread⟩

end Path

end Retrace
