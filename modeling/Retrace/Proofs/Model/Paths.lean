import Retrace.Proofs.Except
import Retrace.Proofs.Model.Reading
import Retrace.Proofs.Model.Trace

/-!
# Paths as keys

Whatever is kept about elements is kept under their rendered paths, so it matters that paths and
elements correspond one to one. The list of paths is made with a stack of waiting elements; it lists
what a walk enters, in the same order (`paths_eq_filterMap_trace`), so every element is listed once,
at the path at which it stands (`mem_paths_iff`). Going down along a path finds the element that
stands there (`At.resolve?_eq_some`), and every path that can be read and leads to an element is the
one at which this element stands (`at_of_resolve?`), because such a path has a number exactly where
the kind of a segment repeats.

## Main definitions

* `Segment.Numbered`: a segment has a number exactly if its kind repeats;
* `Segment.Bounded`: the number of a segment fits into a machine word;
* `Model.Grown`: the models that are reached by asking for elements to be added.

## Main results

* `Model.paths_and_resolve?_of_grown`: the paths of such models, listed and looked up.
-/

namespace Retrace

/-! ## Paths that are read -/

/-- A segment has a number exactly if its kind repeats, and numbers are counted from one. -/
structure Segment.Numbered (segment : Segment) : Prop where
  /-- Exactly the kinds that repeat are numbered. -/
  repeats_eq : segment.kind.repeats = segment.index.isSome
  /-- No number is zero. -/
  index_ne : segment.index ≠ some 0

/-- The number of a segment fits into a machine word. -/
def Segment.Bounded (segment : Segment) : Prop :=
  ∀ number ∈ segment.index, number < Path.indexLimit

namespace Path

variable {path text : Text}

/-- A number that is read is not zero and fits into a machine word. -/
theorem of_readIndex {segment behind : Text} {index : Nat}
    (h : readIndex path segment behind = .ok index) : index ≠ 0 ∧ index < indexLimit := by
  unfold readIndex at h
  split at h
  · cases h
  · split at h
    · cases h
    · rename_i found hzero hfound
      obtain rfl := Except.ok.inj h
      exact ⟨hzero, of_decide_eq_true (Option.filter_eq_some_iff.1 hfound).2⟩
    · cases h

theorem of_splitSegment {segment name : Text} {index : Option Nat}
    (h : splitSegment path segment = .ok (name, index)) :
    ∀ number ∈ index, number ≠ 0 ∧ number < indexLimit := by
  unfold splitSegment at h
  split at h
  · obtain ⟨found, hfound, heq⟩ := Except.map_eq_ok.1 h
    obtain ⟨-, rfl⟩ := Prod.mk.inj heq
    rintro number ⟨⟩
    exact of_readIndex hfound
  · obtain ⟨-, rfl⟩ := Prod.mk.inj (Except.ok.inj h)
    exact nofun

/-- A segment that is read is numbered as its kind asks for. -/
theorem numbered_of_readSegment {segment : Segment} (h : readSegment path text = .ok segment) :
    segment.Numbered ∧ segment.Bounded := by
  unfold readSegment at h
  split at h
  · cases h
  · rename_i name index hsplit
    have hindex := of_splitSegment hsplit
    split at h
    · cases h
    · rename_i kind hkind
      split at h
      · rename_i hrepeats
        obtain rfl := Except.ok.inj h
        exact ⟨⟨hrepeats, fun hzero => (hindex 0 hzero).1 rfl⟩,
          fun number hnumber => (hindex number hnumber).2⟩
      · split at h <;> cases h

theorem numbered_of_mapM {texts : List Text} {segments : List Segment}
    (h : texts.mapM (readSegment path) = .ok segments) :
    ∀ segment ∈ segments, segment.Numbered ∧ segment.Bounded := by
  induction texts generalizing segments with
  | nil =>
    obtain rfl := Except.ok.inj h
    simp
  | cons first later ih =>
    rw [List.mapM_cons] at h
    obtain ⟨segment, hsegment, h⟩ := Except.bind_eq_ok.1 h
    obtain ⟨others, hothers, h⟩ := Except.bind_eq_ok.1 h
    obtain rfl := Except.ok.inj h
    exact List.forall_mem_cons.2 ⟨numbered_of_readSegment hsegment, ih hothers⟩

/-- A path that is read starts at the root, and all of its segments are numbered as they should. -/
theorem exists_segments_of_read {path : Path} (h : Path.read text = .ok path) :
    ∃ later, path.segments = Path.root.segments ++ later ∧
      ∀ segment ∈ later, segment.Numbered ∧ segment.Bounded := by
  unfold Path.read at h
  split at h
  · split at h
    · cases h
    · rename_i segments hsegments
      split at h
      · rename_i hhead
        obtain rfl := Except.ok.inj h
        have hnumbered := numbered_of_mapM hsegments
        cases segments with
        | nil => simp at hhead
        | cons first later =>
          obtain ⟨⟨hfirst, -⟩, hlater⟩ := List.forall_mem_cons.1 hnumbered
          refine ⟨later, ?_, hlater⟩
          obtain ⟨kind, index⟩ := first
          obtain rfl : kind = .nta := by simpa using hhead
          -- The root does not repeat, so it has no number.
          have hindex : index.isSome = false := hfirst.repeats_eq.symm
          obtain rfl : index = none := by simpa using hindex
          rfl
      · cases h
  · cases h

end Path

/-- The element that a step enters, with its path. -/
def WalkStep.entered? : WalkStep → Option (NodeId × Path)
  | .enter node path => some (node, path)
  | .leave _ _ => none

namespace Model

variable {model : Model}

/-! ## The list of paths -/

/-- The elements that a walk enters from one of them on, at most `bound` levels deep. -/
def enteredFrom (model : Model) (bound : Nat) (entry : NodeId × Path) : List (NodeId × Path) :=
  (model.traceFrom bound entry.1 entry.2).filterMap WalkStep.entered?

theorem enteredFrom_succ (bound : Nat) (entry : NodeId × Path) :
    model.enteredFrom (bound + 1) entry =
      entry :: (model.childPaths entry.1 entry.2).flatMap (model.enteredFrom bound) := by
  simp only [enteredFrom, traceFrom, List.filterMap_append, List.filterMap_cons,
    WalkStep.entered?, List.filterMap_flatMap, List.filterMap_nil, List.append_nil]
  rfl

/-- The walk takes the elements in its own order. -/
theorem map_fst_enteredFrom (bound : Nat) (entry : NodeId × Path) :
    (model.enteredFrom bound entry).map Prod.fst =
      preorder model.orderedChildren bound entry.1 := by
  induction bound generalizing entry with
  | zero => rfl
  | succ bound ih =>
    rw [enteredFrom_succ, preorder, ← map_fst_childPaths entry.1 entry.2, List.map_cons,
      List.map_flatMap, List.flatMap_map]
    simp only [ih]

/-- The bound on the depth does not matter as long as it is high enough. -/
theorem traceFrom_congr (hmodel : model.WellFormed) {bound bound' id : Nat} {path : Path}
    (hid : id < model.size) (hbound : model.size ≤ bound + id)
    (hbound' : model.size ≤ bound' + id) :
    model.traceFrom bound id path = model.traceFrom bound' id path := by
  induction bound generalizing bound' id path with
  | zero => omega
  | succ bound ih =>
    obtain ⟨bound', rfl⟩ : ∃ other, bound' = other + 1 := ⟨bound' - 1, by omega⟩
    rw [traceFrom, traceFrom]
    congr 2
    refine List.flatMap_congr fun child hchild => ?_
    obtain ⟨child, childPath⟩ := child
    -- A child has a higher number, so it makes up for the level.
    obtain ⟨hlt, hsize⟩ := hmodel.lists.lt_of_mem (mem_children_of_mem_childPaths hchild)
    exact ih hsize (by omega) (by omega)

/-- The elements inside an element are visited between its two steps. -/
theorem traceFrom_size (hmodel : model.WellFormed) {id : Nat} (hid : id < model.size)
    (path : Path) :
    model.traceFrom model.size id path =
      .enter id path :: (model.childPaths id path).flatMap (fun (child, childPath) =>
        model.traceFrom model.size child childPath) ++ [.leave id path] := by
  have hsucc : model.traceFrom model.size id path = model.traceFrom (model.size + 1) id path :=
    traceFrom_congr hmodel hid (Nat.le_add_right ..) (by omega)
  rw [hsucc, traceFrom]

/-- An element is entered ahead of those inside it. -/
theorem enteredFrom_size (hmodel : model.WellFormed) {id : Nat} (hid : id < model.size)
    (path : Path) : model.enteredFrom model.size (id, path) =
      (id, path) :: (model.childPaths id path).flatMap (model.enteredFrom model.size) := by
  rw [enteredFrom, traceFrom_size hmodel hid]
  simp only [List.filterMap_append, List.filterMap_cons, WalkStep.entered?, List.filterMap_flatMap,
    List.filterMap_nil, List.append_nil]
  rfl

/-- What is waiting on the stack is listed with all that is inside it, one element after the
other. -/
theorem pathsFrom_eq_flatMap (hmodel : model.WellFormed) {bound : Nat}
    {waiting : List (NodeId × Path)} (hwaiting : ∀ entry ∈ waiting, entry.1 < model.size)
    (hbound : (waiting.flatMap (model.enteredFrom model.size)).length ≤ bound) :
    model.pathsFrom bound waiting = waiting.flatMap (model.enteredFrom model.size) := by
  induction bound generalizing waiting with
  | zero => rw [pathsFrom, List.length_eq_zero_iff.1 (Nat.le_zero.1 hbound)]
  | succ bound ih =>
    cases waiting with
    | nil => rfl
    | cons entry later =>
      obtain ⟨hentry, hlater⟩ := List.forall_mem_cons.1 hwaiting
      obtain ⟨id, path⟩ := entry
      have hchildren : ∀ child ∈ model.childPaths id path, child.1 < model.size :=
        fun child hchild => (hmodel.lists.lt_of_mem (mem_children_of_mem_childPaths hchild)).2
      -- The element itself comes first; those inside it go on the stack in its place.
      rw [List.flatMap_cons, enteredFrom_size hmodel hentry, List.cons_append, ← List.flatMap_append] at hbound ⊢
      rw [pathsFrom, ih ?_ (by simpa using hbound)]
      exact List.forall_mem_append.2 ⟨hchildren, hlater⟩

/-- What is listed is what a walk enters. -/
theorem paths_eq_filterMap_trace (hmodel : model.WellFormed) :
    model.paths = model.trace.filterMap WalkStep.entered? := by
  have hlength : (model.enteredFrom model.size (root, .root)).length = model.size := by
    have hperm := hmodel.lists_orderedChildren.perm_preorder hmodel.pos
    rw [← List.length_map Prod.fst, map_fst_enteredFrom, hperm.length_eq, List.length_range]
  have hsingle : [(root, Path.root)].flatMap (model.enteredFrom model.size) =
      model.enteredFrom model.size (root, .root) := by
    rw [List.flatMap_singleton]
  have hroot : ∀ entry ∈ [(root, Path.root)], entry.1 < model.size := by
    intro entry hentry
    obtain rfl := List.mem_singleton.1 hentry
    exact hmodel.pos
  have hbound : ([(root, Path.root)].flatMap (model.enteredFrom model.size)).length ≤
      model.size :=
    Nat.le_of_eq ((congrArg List.length hsingle).trans hlength)
  exact (pathsFrom_eq_flatMap hmodel hroot hbound).trans hsingle

/-- The elements of a model are listed, each of them once. -/
theorem perm_map_fst_paths (hmodel : model.WellFormed) :
    (model.paths.map Prod.fst).Perm (List.range model.size) := by
  have hentered : model.trace.filterMap WalkStep.entered? =
    model.enteredFrom model.size (root, .root) := rfl
  rw [paths_eq_filterMap_trace hmodel, hentered, map_fst_enteredFrom]
  exact hmodel.lists_orderedChildren.perm_preorder hmodel.pos

/-- What stands at a path is an element of the model. -/
theorem At.lt_size (hmodel : model.WellFormed) {id : NodeId} {path : Path}
    (h : model.At id path) : id < model.size := by
  cases h with
  | root => exact hmodel.pos
  | child _ hchild => exact (hmodel.lt_of_mem (mem_children_of_mem_childPaths hchild)).2

/-- Elements are listed at the paths at which they stand. -/
theorem mem_paths_iff (hmodel : model.WellFormed) {id : NodeId} {path : Path} :
    (id, path) ∈ model.paths ↔ model.At id path := by
  have hat {id : NodeId} {path : Path} (h : (id, path) ∈ model.paths) : model.At id path := by
    rw [paths_eq_filterMap_trace hmodel, List.mem_filterMap] at h
    obtain ⟨step, hstep, hentered⟩ := h
    cases step with
    | enter node path' =>
      obtain ⟨rfl, rfl⟩ := Prod.mk.inj (Option.some.inj hentered)
      exact at_of_mem_trace hstep
    | leave node path' => cases hentered
  refine ⟨hat, fun h => ?_⟩
  -- The element is listed at some path, and it stands at no other.
  have hmem : id ∈ model.paths.map Prod.fst := by
    rw [(perm_map_fst_paths hmodel).mem_iff, List.mem_range]
    exact h.lt_size hmodel
  obtain ⟨⟨_, path'⟩, hlisted, rfl⟩ := List.mem_map.1 hmem
  rwa [h.path_unique hmodel (hat hlisted)]

/-- Different elements are listed at paths that are shown differently. -/
theorem nodup_map_render_paths (hmodel : model.WellFormed) :
    (model.paths.map fun entry => entry.2.render).Nodup := by
  have hnodup : (model.paths.map Prod.fst).Nodup :=
    (perm_map_fst_paths hmodel).nodup_iff.2 List.nodup_range
  refine List.pairwise_map.2 ((List.pairwise_map.1 hnodup).imp_of_mem ?_)
  intro entry later hentry hlater hne hrender
  exact hne (((mem_paths_iff hmodel).1 hentry).node_unique_of_render hmodel
    ((mem_paths_iff hmodel).1 hlater) hrender)

/-! ## Looking up paths -/

theorem resolveFrom_append (id : NodeId) (segments later : List Segment) :
    model.resolveFrom id (segments ++ later) =
      (model.resolveFrom id segments).bind fun found => model.resolveFrom found later := by
  induction segments generalizing id with
  | nil => rfl
  | cons segment segments ih =>
    rw [List.cons_append, resolveFrom, resolveFrom]
    split
    · rfl
    · split
      · exact ih _
      · rfl

/-- Looking up a path from the root on is looking up the segments behind the first. -/
theorem resolve?_root_append (later : List Segment) :
    model.resolve? ⟨Path.root.segments ++ later⟩ = model.resolveFrom root later :=
  rfl

/-- The number in the path of a child leads to the child. -/
theorem resolveFrom_childIndex (id : NodeId) (kind : NodeKind) (index : Nat)
    (h : kind.repeats = false → index = 0) :
    model.resolveFrom id [⟨kind, childIndex kind index⟩] =
      (model.childrenOfKind id kind)[index]? := by
  have hnumber : (childIndex kind index).getD 1 = index + 1 := by
    unfold childIndex
    cases hrepeats : kind.repeats with
    | true => rfl
    | false => simp [h hrepeats]
  simp only [resolveFrom, hnumber]
  cases (model.childrenOfKind id kind)[index]? <;> rfl

/-- A kind that does not repeat has one child at most. -/
theorem WellFormed.eq_zero_of_getElem? (hmodel : model.WellFormed) {id child : NodeId}
    {kind : NodeKind} {index : Nat} (hchild : (model.childrenOfKind id kind)[index]? = some child)
    (hrepeats : kind.repeats = false) : index = 0 := by
  obtain ⟨hlt, hget⟩ := List.getElem?_eq_some_iff.1 hchild
  have hzero : 0 < (model.childrenOfKind id kind).length := Nat.zero_lt_of_lt hlt
  obtain ⟨hmem, hkind⟩ := mem_childrenOfKind.1 (List.getElem_mem hlt)
  obtain ⟨hmem', hkind'⟩ := mem_childrenOfKind.1 (List.getElem_mem hzero)
  -- The first child is of the same kind, so it is the same child.
  have hsame := hmodel.single hmem hmem' (hkind.trans hkind'.symm) (by rw [hkind]; exact hrepeats)
  exact ((hmodel.nodup id).filter _).getElem_inj_iff.1 hsame

/-- The path of an element has segments behind those of the root that lead down to it. -/
theorem At.exists_resolveFrom (hmodel : model.WellFormed) {id : NodeId} {path : Path}
    (h : model.At id path) : ∃ later, path = ⟨Path.root.segments ++ later⟩ ∧
      model.resolveFrom Model.root later = some id := by
  induction h with
  | root => exact ⟨[], rfl, rfl⟩
  | @child id child path childPath _ hchild ih =>
    obtain ⟨later, rfl, hlater⟩ := ih
    obtain ⟨kind, -, index, hindex, rfl⟩ := mem_childPaths.1 hchild
    refine ⟨later ++ [⟨kind, childIndex kind index⟩], by simp [Path.child], ?_⟩
    rw [resolveFrom_append, hlater, Option.bind_some,
      resolveFrom_childIndex id kind index (hmodel.eq_zero_of_getElem? hindex), hindex]

/-- Going down along the path of an element leads to it. -/
theorem At.resolve?_eq_some (hmodel : model.WellFormed) {id : NodeId} {path : Path}
    (h : model.At id path) : model.resolve? path = some id := by
  obtain ⟨later, rfl, hlater⟩ := h.exists_resolveFrom hmodel
  exact hlater

/-- Going down from an element along numbered segments leads to an element at the path that has
these segments behind its own. -/
theorem at_of_resolveFrom (hmodel : model.WellFormed) {id found : NodeId} {path : Path}
    (hat : model.At id path) {segments : List Segment}
    (hnumbered : ∀ segment ∈ segments, segment.Numbered)
    (h : model.resolveFrom id segments = some found) :
    model.At found ⟨path.segments ++ segments⟩ := by
  induction segments generalizing id path with
  | nil =>
    obtain rfl := Option.some.inj h
    simpa using hat
  | cons segment later ih =>
    obtain ⟨⟨hrepeats, hindex⟩, hlater⟩ := List.forall_mem_cons.1 hnumbered
    obtain ⟨kind, number⟩ := segment
    rw [resolveFrom] at h
    split at h
    · cases h
    · rename_i index hnumber
      split at h
      · rename_i child hchild
        obtain ⟨hmem, rfl⟩ := mem_childrenOfKind.1 (List.mem_of_getElem? hchild)
        -- The segment has the number that the path of the child has.
        have hsame : number = childIndex (model.kind child) index := by
          unfold childIndex
          cases number with
          | none =>
            have hone : index = 0 := by simpa using hnumber.symm
            rw [show (model.kind child).repeats = false from hrepeats, hone]
            rfl
          | some number =>
            rw [show (model.kind child).repeats = true from hrepeats]
            simpa using hnumber
        subst hsame
        have hthere := hat.child (mem_childPaths.2
          ⟨_, hmodel.kind_mem hmem, index, hchild, rfl⟩)
        simpa [Path.child] using ih hthere hlater h
      · cases h

/-- A path that can be read and leads to an element is the one at which the element stands. -/
theorem at_of_resolve? (hmodel : model.WellFormed) {text : Text} {path : Path} {id : NodeId}
    (hread : Path.read text = .ok path) (h : model.resolve? path = some id) :
    model.At id path := by
  obtain ⟨segments⟩ := path
  obtain ⟨later, rfl, hnumbered⟩ := Path.exists_segments_of_read hread
  rw [resolve?_root_append] at h
  exact at_of_resolveFrom hmodel .root (fun segment hsegment => (hnumbered segment hsegment).1) h

/-! ## Models that grow -/

/-- Ask for an element to be added; a model that refuses it stays as it is. -/
def request (model : Model) (parent : NodeId) (kind : NodeKind) : Model :=
  match model.addChild parent kind with
  | .ok (_, edited) => edited
  | .error _ => model

/-- The models that are reached from the empty one, or from one that was read, by asking for
elements to be added to elements. -/
inductive Grown : Model → Prop
  | empty : Grown empty
  | read {text : Text} {model : Model} : Model.read text = .ok model → Grown model
  | request {model : Model} {parent : NodeId} (kind : NodeKind) :
      Grown model → parent < model.size → Grown (model.request parent kind)

theorem Grown.wellFormed (h : Grown model) : model.WellFormed := by
  induction h with
  | empty => exact wellFormed_empty
  | read hread => exact wellFormed_of_read hread
  | @request model parent kind _ hparent ih =>
    unfold Model.request
    split
    · rename_i hadd
      exact ih.addChild hparent hadd
    · exact ih

/-- However a model has grown, every element is listed once, at a path of its own, which is shown in
a way of its own; going down along a listed path leads to the element; and whenever a text is read
as a path that leads to an element, the element is listed at this path. -/
theorem paths_and_resolve?_of_grown (h : Grown model) :
    (model.paths.map Prod.fst).Perm (List.range model.size) ∧
      (model.paths.map Prod.snd).Nodup ∧
      (model.paths.map fun entry => entry.2.render).Nodup ∧
      (∀ entry ∈ model.paths, model.resolve? entry.2 = some entry.1) ∧
      ∀ text path id, Path.read text = .ok path → model.resolve? path = some id →
        (id, path) ∈ model.paths := by
  have hmodel := h.wellFormed
  have hrendered := nodup_map_render_paths hmodel
  refine ⟨perm_map_fst_paths hmodel, ?_, hrendered, fun entry hentry => ?_, ?_⟩
  · refine List.Nodup.of_map Path.render ?_
    rwa [List.map_map]
  · exact ((mem_paths_iff hmodel).1 hentry).resolve?_eq_some hmodel
  · intro text path id hread hresolve
    exact (mem_paths_iff hmodel).2 (at_of_resolve? hmodel hread hresolve)

/-- Two templates with a system between them and a second system, which is refused. -/
def requested : Model :=
  ((((empty.request root .template).request root .system).request root .template).request 3
    .declaration).request root .system

/-- The elements of this model are listed by kind and found under the numbers they have there. -/
theorem paths_and_resolve?_of_grown_requested :
    Grown requested ∧ requested.size = 5 ∧
      requested.paths.map (fun entry => entry.2.render) =
        ["/nta", "/nta/system", "/nta/template[1]", "/nta/template[2]",
          "/nta/template[2]/declaration"] ∧
      (4, ⟨[⟨.nta, none⟩, ⟨.template, some 2⟩, ⟨.declaration, none⟩]⟩) ∈ requested.paths := by
  have hgrown : Grown requested :=
    ((((Grown.empty.request .template (by decide)).request .system (by decide)).request .template
      (by decide)).request .declaration (by decide +kernel)).request .system (by decide +kernel)
  obtain ⟨-, -, -, -, hfound⟩ := paths_and_resolve?_of_grown hgrown
  refine ⟨hgrown, by decide +kernel, by decide +kernel, ?_⟩
  refine hfound "/nta/template[2]/declaration".toList _ 4 ?_ (by decide +kernel)
  rw [← Except.toOption_eq_some]
  decide +kernel

end Model

end Retrace
