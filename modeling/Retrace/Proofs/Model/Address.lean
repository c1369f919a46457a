import Retrace.Model.Walk
import Retrace.Proofs.Model.WellFormed
import Retrace.Proofs.Text.Run

/-!
# Paths as addresses

`Model.At` says at which path an element of a model stands. In a well-formed model every element
stands at one path (`WellFormed.exists_at`, `At.path_unique`), no two elements stand at the same
(`At.node_unique`), and since different paths are shown differently (`Path.render_injective`), a
rendered path names one element.

Only kinds and children decide about paths, so changes of texts and attributes do not move an
element (`At.congr`).
-/

namespace Retrace

/-! ## Different paths look different -/

/-- Kinds are named without the characters that structure a path. -/
theorem NodeKind.not_mem_tag (kind : NodeKind) :
    '/' ∉ kind.tag.toList ∧ '[' ∉ kind.tag.toList := by
  cases kind <;> decide

theorem toDigits_ten_injective {m n : Nat} (h : Nat.toDigits 10 m = Nat.toDigits 10 n) : m = n := by
  rw [← Nat.ofDigitChars_ten_toDigits (n := m), h, Nat.ofDigitChars_ten_toDigits]

namespace Segment

/-- A segment does not contain the character that ends it. -/
theorem slash_not_mem_render (segment : Segment) : '/' ∉ segment.render := by
  obtain ⟨kind, index⟩ := segment
  unfold render
  cases index with
  | none => simpa using kind.not_mem_tag.1
  | some index =>
    have hdigits : '/' ∉ Nat.toDigits 10 index := fun h =>
      absurd (Nat.isDigit_of_mem_toDigits (by decide) (by decide) h) (by decide)
    simpa using ⟨kind.not_mem_tag.1, hdigits⟩

theorem render_injective {first second : Segment} (h : first.render = second.render) :
    first = second := by
  obtain ⟨kind, index⟩ := first
  obtain ⟨kind', index'⟩ := second
  unfold render at h
  -- Only a segment with a number has a bracket.
  cases index with
  | none =>
    cases index' with
    | none =>
      simp only [List.append_nil] at h
      rw [NodeKind.tag_toList_injective h]
    | some index' =>
      have hbracket : '[' ∈ kind.tag.toList := by
        simp only [List.append_nil] at h
        rw [h]
        simp
      exact absurd hbracket kind.not_mem_tag.2
  | some index =>
    cases index' with
    | none =>
      have hbracket : '[' ∈ kind'.tag.toList := by
        simp only [List.append_nil] at h
        rw [← h]
        simp
      exact absurd hbracket kind'.not_mem_tag.2
    | some index' =>
      obtain ⟨htag, hindex⟩ :=
        Text.append_cons_inj kind.not_mem_tag.2 kind'.not_mem_tag.2 h
      rw [NodeKind.tag_toList_injective htag,
        toDigits_ten_injective (List.append_cancel_right hindex)]

end Segment

namespace Path

/-- The segments can be read off the text of a path. -/
theorem text_injective {first second : Path} (h : first.text = second.text) : first = second := by
  obtain ⟨segments⟩ := first
  obtain ⟨segments'⟩ := second
  unfold text at h
  dsimp only at h
  rw [mk.injEq]
  induction segments generalizing segments' with
  | nil =>
    cases segments' with
    | nil => rfl
    | cons segment later => cases h
  | cons segment later ih =>
    cases segments' with
    | nil => cases h
    | cons segment' later' =>
      simp only [List.flatMap_cons, List.cons_append, List.cons.injEq, true_and] at h
      -- What follows a segment is nothing or begins with a slash.
      have hcut : segment.render = segment'.render ∧
          (later.flatMap fun segment => '/' :: segment.render) =
            later'.flatMap fun segment => '/' :: segment.render := by
        cases later with
        | nil =>
          cases later' with
          | nil => exact ⟨by simpa using h, rfl⟩
          | cons next later' =>
            have hslash : '/' ∈ segment.render := by
              simp only [List.flatMap_nil, List.append_nil] at h
              rw [h]
              simp
            exact absurd hslash segment.slash_not_mem_render
        | cons next later =>
          cases later' with
          | nil =>
            have hslash : '/' ∈ segment'.render := by
              simp only [List.flatMap_nil, List.append_nil] at h
              rw [← h]
              simp
            exact absurd hslash segment'.slash_not_mem_render
          | cons next' later' =>
            simp only [List.flatMap_cons, List.cons_append] at h ⊢
            obtain ⟨hrender, hback⟩ := Text.append_cons_inj segment.slash_not_mem_render
              segment'.slash_not_mem_render h
            exact ⟨hrender, by rw [hback]⟩
      rw [Segment.render_injective hcut.1, ih _ hcut.2]

/-- Different paths are shown differently. -/
theorem render_injective {first second : Path} (h : first.render = second.render) :
    first = second :=
  text_injective (String.ofList_inj.1 h)

/-- The path of the element around. -/
def outer (path : Path) : Path :=
  ⟨path.segments.dropLast⟩

@[simp] theorem outer_child (path : Path) (kind : NodeKind) (index : Option Nat) :
    (path.child kind index).outer = path := by
  simp [outer, child]

end Path

namespace Model

variable {model : Model}

/-! ## The children of an element -/

theorem mem_childrenOfKind {id child : NodeId} {kind : NodeKind} :
    child ∈ model.childrenOfKind id kind ↔
      child ∈ (model.node id).children ∧ model.kind child = kind := by
  rw [childrenOfKind, List.mem_filter, decide_eq_true_eq]

/-- The number in the path of a child, if its kind has one. -/
def childIndex (kind : NodeKind) (index : Nat) : Option Nat :=
  if kind.repeats then some (index + 1) else none

theorem mem_childPaths {id child : NodeId} {path childPath : Path} :
    (child, childPath) ∈ model.childPaths id path ↔
      ∃ kind ∈ (model.kind id).childKinds, ∃ index,
        (model.childrenOfKind id kind)[index]? = some child ∧
        childPath = path.child kind (childIndex kind index) := by
  simp only [childPaths, List.mem_flatMap, List.mem_mapIdx, List.getElem?_eq_some_iff,
    Prod.mk.injEq, childIndex]
  constructor
  · rintro ⟨kind, hkind, index, hlt, rfl, rfl⟩
    exact ⟨kind, hkind, index, ⟨hlt, rfl⟩, rfl⟩
  · rintro ⟨kind, hkind, index, ⟨hlt, rfl⟩, rfl⟩
    exact ⟨kind, hkind, index, hlt, rfl, rfl⟩

/-- What stands inside an element according to the paths is one of its children. -/
theorem mem_children_of_mem_childPaths {id child : NodeId} {path childPath : Path}
    (h : (child, childPath) ∈ model.childPaths id path) : child ∈ (model.node id).children := by
  obtain ⟨kind, -, index, hchild, -⟩ := mem_childPaths.1 h
  exact (mem_childrenOfKind.1 (List.mem_of_getElem? hchild)).1

/-! ## Addresses -/

/-- An element stands at a path. -/
inductive At (model : Model) : NodeId → Path → Prop
  | root : At model root .root
  | child {id child : NodeId} {path childPath : Path} :
      At model id path → (child, childPath) ∈ model.childPaths id path → At model child childPath

/-- Paths depend on kinds and children alone. -/
theorem At.congr {other : Model} (hkind : ∀ id, other.kind id = model.kind id)
    (hchildren : ∀ id, (other.node id).children = (model.node id).children) {id : NodeId}
    {path : Path} (h : model.At id path) : other.At id path := by
  have hpaths (id : NodeId) (path : Path) :
      other.childPaths id path = model.childPaths id path := by
    simp only [childPaths, childrenOfKind, hkind, hchildren]
  induction h with
  | root => exact .root
  | child _ hchild ih => exact ih.child (by rw [hpaths]; exact hchild)

theorem At.segments_ne_nil {id : NodeId} {path : Path} (h : model.At id path) :
    path.segments ≠ [] := by
  cases h with
  | root => exact List.cons_ne_nil _ _
  | child _ hchild =>
    obtain ⟨kind, -, index, -, rfl⟩ := mem_childPaths.1 hchild
    simp [Path.child]

/-- No child stands at the path of the root. -/
theorem At.child_ne_root {id : NodeId} {path : Path} (h : model.At id path) (kind : NodeKind)
    (index : Option Nat) : path.child kind index ≠ .root := by
  intro heq
  have hsegments := congrArg Path.segments heq
  simp only [Path.root, Path.child] at hsegments
  obtain ⟨hnil, -⟩ | ⟨-, hnil⟩ := List.append_eq_singleton_iff.1 hsegments
  · exact h.segments_ne_nil hnil
  · cases hnil

/-- No two elements stand at the same path. -/
theorem At.node_unique (hmodel : model.WellFormed) {first second : NodeId} {path : Path}
    (h : model.At first path) (h' : model.At second path) : first = second := by
  induction h generalizing second with
  | root =>
    cases h' with
    | root => rfl
    | child hat hchild =>
      obtain ⟨kind, -, index, -, hpath⟩ := mem_childPaths.1 hchild
      exact (hat.child_ne_root _ _ hpath.symm).elim
  | @child id child path childPath hat hchild ih =>
    obtain ⟨kind, -, index, hindex, hpath⟩ := mem_childPaths.1 hchild
    cases h' with
    | root =>
      exact (hat.child_ne_root _ _ hpath.symm).elim
    | @child id' child' path' _ hat' hchild' =>
      obtain ⟨kind', -, index', hindex', hpath'⟩ := mem_childPaths.1 hchild'
      -- Both paths end with the segment of the child, so the elements around it are the same.
      have hsegments := congrArg Path.segments (hpath.symm.trans hpath')
      simp only [Path.child] at hsegments
      obtain ⟨hfront, hlast⟩ := List.append_inj' hsegments rfl
      simp only [List.cons.injEq, Segment.mk.injEq, and_true] at hlast
      obtain ⟨rfl, hnumber⟩ := hlast
      obtain rfl : path = path' := congrArg Path.mk hfront
      obtain rfl := ih hat'
      -- Children of a kind that repeats are told apart by their numbers, of others there is one.
      unfold childIndex at hnumber
      cases hrepeats : kind.repeats with
      | true =>
        simp only [hrepeats, if_true, Option.some.injEq, Nat.add_right_cancel_iff] at hnumber
        rw [hnumber, hindex'] at hindex
        exact (Option.some.inj hindex).symm
      | false =>
        obtain ⟨hmem, hkind⟩ := mem_childrenOfKind.1 (List.mem_of_getElem? hindex)
        obtain ⟨hmem', hkind'⟩ := mem_childrenOfKind.1 (List.mem_of_getElem? hindex')
        exact hmodel.single hmem hmem' (hkind.trans hkind'.symm) (hkind ▸ hrepeats)

/-- No element stands at two paths. -/
theorem At.path_unique (hmodel : model.WellFormed) {id : NodeId} {first second : Path}
    (h : model.At id first) (h' : model.At id second) : first = second := by
  -- The root is inside no element.
  have hroot {id : NodeId} (hmem : Model.root ∈ (model.node id).children) : False := by
    have hlt := (hmodel.lt_of_mem hmem).1
    exact Nat.not_lt_zero id hlt
  induction h generalizing second with
  | root =>
    cases h' with
    | root => rfl
    | child _ hchild => exact (hroot (mem_children_of_mem_childPaths hchild)).elim
  | @child id child path childPath hat hchild ih =>
    cases h' with
    | root => exact (hroot (mem_children_of_mem_childPaths hchild)).elim
    | @child id' _ path' _ hat' hchild' =>
      -- An element is inside one other element only.
      obtain rfl : id = id' := by
        have hparent := hmodel.parent_of_mem (mem_children_of_mem_childPaths hchild)
        rw [hmodel.parent_of_mem (mem_children_of_mem_childPaths hchild')] at hparent
        exact (Option.some.inj hparent).symm
      obtain rfl := ih hat'
      obtain ⟨kind, -, index, hindex, rfl⟩ := mem_childPaths.1 hchild
      obtain ⟨kind', -, index', hindex', rfl⟩ := mem_childPaths.1 hchild'
      obtain rfl : kind = kind' := by
        rw [← (mem_childrenOfKind.1 (List.mem_of_getElem? hindex)).2,
          (mem_childrenOfKind.1 (List.mem_of_getElem? hindex')).2]
      -- No child is listed twice, so its number is determined.
      have hnodup : (model.childrenOfKind id kind).Nodup :=
        List.Pairwise.filter _ (hmodel.nodup id)
      obtain ⟨hlt, -⟩ := List.getElem?_eq_some_iff.1 hindex
      rw [(List.getElem?_inj hlt hnodup).1 (hindex.trans hindex'.symm)]

/-- A rendered path names one element. -/
theorem At.node_unique_of_render (hmodel : model.WellFormed) {first second : NodeId}
    {path path' : Path} (h : model.At first path) (h' : model.At second path')
    (hrender : path.render = path'.render) : first = second :=
  h.node_unique hmodel (Path.render_injective hrender ▸ h')

/-- Every element stands at some path. -/
theorem WellFormed.exists_at (hmodel : model.WellFormed) {id : NodeId} (h : id < model.size) :
    ∃ path, model.At id path := by
  induction id using Nat.strongRecOn with
  | ind id ih =>
    rcases Nat.eq_zero_or_pos id with rfl | hpos
    · exact ⟨_, .root⟩
    · -- Elements come behind the element around them, so that one has a path already.
      obtain ⟨parent, hmem⟩ := hmodel.exists_mem hpos h
      have hlt := (hmodel.lt_of_mem hmem).1
      obtain ⟨path, hat⟩ := ih parent hlt (Nat.lt_trans hlt h)
      obtain ⟨index, hindex⟩ := List.mem_iff_getElem?.1 (mem_childrenOfKind.2 ⟨hmem, rfl⟩)
      exact ⟨_, hat.child (mem_childPaths.2 ⟨_, hmodel.kind_mem hmem, index, hindex, rfl⟩)⟩

end Model

end Retrace
