import Retrace.Proofs.Model.Alike
import Retrace.Proofs.Model.Order
import Retrace.Proofs.Model.Rendering

/-!
# Rendering a model and reading it again

A model that was built without a document is written from scratch, and reading what was written
gives the same tree. Its elements are numbered in document order then, whatever the order in which
they were added before, so every element has its place (`Model.Copy`). The rendered markup is read
element by element: each adds itself and what is inside it (`Model.Grows`) to the elements that have
been read so far.

## Main definitions

* `Model.Built`: a model was built step by step;
* `Model.documentOrder`, `Model.listing`: the elements in document order, and what they are;
* `Model.Copy`: an element of one model stands at its place in another one;
* `Model.Ready`, `Model.Grows`: what is known of a model before some elements are added to it, and
  how they change it.

## Main results

* `Model.reads_renderedAll`: rendered elements are read at their places;
* `Model.read_render`: a model that was built is rendered so that the same tree is read again.
-/

namespace Retrace.Model

open Markup

/-! ## Models that are built -/

/-- The model was built from its root by adding elements and by setting texts and attributes, where
the names of attributes can be read. -/
inductive Built : Model → Prop where
  /-- There is the root at the beginning. -/
  | empty : Built empty
  /-- An element is added inside one that is there. -/
  | addChild {model edited : Model} {parent id : NodeId} {kind : NodeKind} : Built model →
    parent < model.size → model.addChild parent kind = .ok (id, edited) → Built edited
  /-- A text is set. -/
  | setText {model edited : Model} {id : NodeId} {text : Text} : Built model →
    model.setText id text = .ok edited → Built edited
  /-- An attribute is set. -/
  | setAttribute {model : Model} (id : NodeId) {name : Text} (value : Text) : Built model →
    isName name = true → Built (model.setAttribute id name value)

namespace Built

variable {model : Model}

theorem wellFormed (h : model.Built) : model.WellFormed := by
  induction h with
  | empty => exact wellFormed_empty
  | addChild _ hparent hadd ih => exact ih.addChild hparent hadd
  | setText _ hset ih => exact ih.setText hset
  | setAttribute id value _ _ ih => exact ih.setAttribute ..

/-- Nothing that is done to a model gives it a document. -/
theorem document_eq_none (h : model.Built) : model.document = none := by
  induction h with
  | empty => rfl
  | addChild _ _ hadd ih =>
    obtain ⟨-, -, rfl⟩ := addChild_eq_ok hadd
    exact ih
  | setText _ hset ih =>
    obtain ⟨-, rfl⟩ := setText_eq_ok hset
    exact ih
  | setAttribute id value _ _ ih => exact ih

theorem named (h : model.Built) : model.Named := by
  induction h with
  | empty =>
    intro id entry hentry
    rw [node_empty] at hentry
    cases hentry
  | @addChild model edited parent id kind _ _ hadd ih =>
    obtain ⟨-, -, rfl⟩ := addChild_eq_ok hadd
    intro other entry hentry
    rw [node_insert] at hentry
    split at hentry
    · cases hentry
    · split at hentry
      · exact ih other entry hentry
      · exact ih other entry hentry
  | setText _ hset ih =>
    obtain ⟨-, rfl⟩ := setText_eq_ok hset
    intro other entry hentry
    rw [apply_node_update Node.attributes rfl] at hentry
    exact ih other entry hentry
  | @setAttribute model id name value _ hname ih =>
    intro other entry hentry
    rw [Model.setAttribute, node_update] at hentry
    split at hentry
    · -- The names afterwards are those before and the new one.
      have hold (key : Text) (hkey : key ∈ (model.node id).attributes.map Prod.fst) :
          isName key = true := by
        obtain ⟨old, hmem, rfl⟩ := List.mem_map.1 hkey
        exact ih id old hmem
      have hkey := List.mem_map_of_mem (f := Prod.fst) hentry
      rw [Node.setAttribute, map_fst_putAttribute] at hkey
      split at hkey
      · exact hold entry.1 hkey
      · rcases List.mem_append.1 hkey with hkey | hkey
        · exact hold entry.1 hkey
        · rw [List.mem_singleton.1 hkey]
          exact hname
    · exact ih other entry hentry

end Built

/-! ## Document order -/

/-- The elements in document order. -/
def documentOrder (model : Model) : List NodeId :=
  preorder (fun id => (model.node id).children) model.size root

/-- What an element is, apart from its place in the tree. -/
structure Entry where
  /-- Its kind. -/
  kind : NodeKind
  /-- The names and values of its attributes, in order. -/
  attributes : List (Text × Text)
  /-- Its text. -/
  text : Option Text
  /-- The number of elements directly inside it. -/
  childCount : Nat
  deriving DecidableEq, Repr

/-- What an element is. -/
def entry (model : Model) (id : NodeId) : Entry :=
  let node := model.node id
  ⟨node.kind, node.attributes, node.text, node.children.length⟩

/-- What the elements are, in document order. -/
def listing (model : Model) : List Entry :=
  model.documentOrder.map model.entry

/-! ## Places -/

/-- An element of one model stands at its place in another one, and so do the elements directly
inside it. -/
structure Copy (model other : Model) (place : NodeId → NodeId) (id : NodeId) : Prop where
  /-- The kinds agree. -/
  kind_eq : other.kind (place id) = model.kind id
  /-- The attributes agree. -/
  attributes_eq : (other.node (place id)).attributes = (model.node id).attributes
  /-- The texts agree. -/
  text_eq : (other.node (place id)).text = (model.node id).text
  /-- The elements directly inside are the same. -/
  children_eq : (other.node (place id)).children = (model.node id).children.map place

variable {model other before after : Model} {place : NodeId → NodeId} {bound depth offset : Nat}
  {parent : NodeId} {done todo : List NodeId}

theorem Copy.entry_eq {id : NodeId} (h : Copy model other place id) :
    other.entry (place id) = model.entry id := by
  have hkind : (other.node (place id)).kind = (model.node id).kind := h.kind_eq
  simp only [entry, hkind, h.attributes_eq, h.text_eq, h.children_eq, List.length_map]

/-- What happens to other elements does not matter. -/
theorem Copy.congr {id : NodeId} (h : Copy model before place id)
    (hnode : after.node (place id) = before.node (place id)) : Copy model after place id where
  kind_eq := by
    rw [Model.kind, hnode]
    exact h.kind_eq
  attributes_eq := by
    rw [hnode]
    exact h.attributes_eq
  text_eq := by
    rw [hnode]
    exact h.text_eq
  children_eq := by
    rw [hnode]
    exact h.children_eq

/-- Elements at their places come in the same order. -/
theorem preorder_map {next next' : NodeId → List NodeId} {id : NodeId}
    (h : ∀ other ∈ preorder next bound id, next' (place other) = (next other).map place) :
    preorder next' bound (place id) = (preorder next bound id).map place := by
  induction bound generalizing id with
  | zero => rfl
  | succ bound ih =>
    rw [preorder, preorder, List.map_cons, h id List.mem_cons_self, List.map_flatMap,
      List.flatMap_map]
    congr 1
    refine List.flatMap_congr fun child hchild => ih fun other hother => h other ?_
    exact List.mem_cons_of_mem _ (List.mem_flatMap.2 ⟨child, hchild, hother⟩)

/-! ## Starting elements -/

/-- An attribute with a new name is put behind the others. -/
theorem putAttribute_of_not_mem {name value : Text} {attributes : List (Text × Text)}
    (h : name ∉ attributes.map Prod.fst) :
    Node.putAttribute name value attributes = attributes ++ [(name, value)] := by
  induction attributes with
  | nil => rfl
  | cons first later ih =>
    obtain ⟨key, old⟩ := first
    rw [List.map_cons, List.mem_cons, not_or] at h
    rw [Node.putAttribute, if_neg fun heq => h.1 heq.symm, ih h.2, List.cons_append]

/-- Rendered attributes are read in order. -/
theorem exists_readAttributes {id : NodeId} {attributes : List (Text × Text)}
    (hlt : id < before.size)
    (hnodup : (((before.node id).attributes ++ attributes).map Prod.fst).Nodup) (offset : Nat) :
    ∃ after, readAttributes id offset (attributes.map Attribute.rendered) before = .ok after ∧
      after.size = before.size ∧
      after.node id =
        { before.node id with attributes := (before.node id).attributes ++ attributes } ∧
      ∀ other, other ≠ id → after.node other = before.node other := by
  induction attributes generalizing before offset with
  | nil =>
    refine ⟨before, rfl, rfl, ?_, fun _ _ => rfl⟩
    rw [List.append_nil]
  | cons first later ih =>
    obtain ⟨name, value⟩ := first
    -- No attribute is set twice, so each one is put behind those before it.
    have hnew : name ∉ (before.node id).attributes.map Prod.fst := by
      intro hmem
      rw [List.map_append, List.map_cons] at hnodup
      exact (List.nodup_append.1 hnodup).2.2 _ hmem _ List.mem_cons_self rfl
    have hnode : (before.setAttribute id name value).node id =
        { before.node id with attributes := (before.node id).attributes ++ [(name, value)] } := by
      rw [setAttribute, node_update, if_pos ⟨rfl, hlt⟩, Node.setAttribute,
        putAttribute_of_not_mem hnew]
    have hlt' : id < (before.setAttribute id name value).size := by
      rw [setAttribute, size_update]
      exact hlt
    have hnodup' : ((((before.setAttribute id name value).node id).attributes ++ later).map
        Prod.fst).Nodup := by
      rw [hnode, List.append_assoc]
      exact hnodup
    obtain ⟨after, hread, hsize, hid, hother⟩ := ih hlt' hnodup' _
    refine ⟨after, ?_, hsize.trans (size_update ..), ?_, ?_⟩
    · have hvalue : readRaw (offset + Text.size (Attribute.rendered (name, value)).front)
          (encodeValue value) = .ok value :=
        Except.mapError_eq_ok.2 (decode_encodeValue _ value)
      rw [List.map_cons, readAttributes]
      simp only [Attribute.rendered] at hvalue ⊢
      rw [hvalue]
      exact hread
    · rw [hid, hnode, List.append_assoc, List.singleton_append]
    · intro other hne
      rw [hother other hne, setAttribute, node_update_of_ne _ hne.symm]

/-- What the start of a rendered element adds. -/
structure Adds (node : Node) (parent : NodeId) (before after : Model) : Prop where
  /-- There is one more element. -/
  size_eq : after.size = before.size + 1
  /-- It has the kind and the attributes of the rendered one. -/
  node_size : after.node before.size =
    { Node.ofKind node.kind parent with attributes := node.attributes }
  /-- It is the last one directly inside the element around it. -/
  node_parent : after.node parent =
    { before.node parent with children := (before.node parent).children ++ [before.size] }
  /-- The others are what they were. -/
  node_of_ne : ∀ other, other ≠ before.size → other ≠ parent →
    after.node other = before.node other

/-- The start of a rendered element is read where an element of its kind may stand. -/
theorem exists_readStart {node : Node} (hlt : parent < before.size)
    (hnodup : (node.attributes.map Prod.fst).Nodup)
    (hrefusal : before.refusal? parent node.kind = none) (span : Span) :
    ∃ after, readStart parent node.kind node.startTag span before = .ok (before.size, after) ∧
      Adds node parent before after := by
  have hadd : before.addChild parent node.kind =
      .ok (before.size, before.insert parent node.kind) := by
    rw [addChild, hrefusal]
  have hnew : (before.insert parent node.kind).node before.size =
      Node.ofKind node.kind parent := by
    rw [node_insert, if_pos rfl]
  have hsize : before.size < (before.insert parent node.kind).size := by
    rw [size_insert]
    exact Nat.lt_succ_self _
  have hnodup' : (((((before.insert parent node.kind).node before.size).attributes ++
      node.attributes).map Prod.fst)).Nodup := by
    rw [hnew]
    exact hnodup
  -- The element is added without attributes, and then they are read one by one.
  obtain ⟨after, hread, hafter, hid, hother⟩ := exists_readAttributes hsize hnodup'
    (span.start + 1 + Text.size node.startTag.name)
  refine ⟨after, ?_, hafter.trans (size_insert ..), ?_, ?_, ?_⟩
  · refine Except.bind_eq_ok.2 ⟨_, Except.mapError_eq_ok.2 hadd, ?_⟩
    exact Except.bind_eq_ok.2 ⟨after, hread, rfl⟩
  · rw [hid, hnew]
    rfl
  · rw [hother parent (Nat.ne_of_lt hlt), node_insert, if_neg (Nat.ne_of_lt hlt), if_pos ⟨rfl, hlt⟩]
  · intro other hne hparent
    rw [hother other hne, node_insert, if_neg hne, if_neg fun hand => hparent hand.1.symm]

/-- The elements stand at places that follow each other. -/
def Consecutive (place : NodeId → NodeId) (start : Nat) (order : List NodeId) : Prop :=
  order.map place = List.range' start order.length

namespace Consecutive

variable {start : Nat} {order order' : List NodeId} {id : NodeId}

theorem of_append (h : Consecutive place start (order ++ order')) :
    Consecutive place start order ∧ Consecutive place (start + order.length) order' := by
  rw [Consecutive, List.map_append, List.length_append, ← List.range'_append_1] at h
  exact List.append_inj h (by simp)

theorem bounds (h : Consecutive place start order) (hid : id ∈ order) :
    start ≤ place id ∧ place id < start + order.length := by
  have hmem : place id ∈ order.map place := List.mem_map_of_mem hid
  rw [show order.map place = _ from h] at hmem
  exact List.mem_range'_1.1 hmem

/-- The first element stands at the first place. -/
theorem head (h : Consecutive place start (id :: order)) :
    place id = start ∧ Consecutive place (start + 1) order := by
  rw [Consecutive, List.map_cons, List.length_cons, List.range'_succ] at h
  exact List.cons.inj h

end Consecutive

/-! ## Reading element by element -/

/-- Some of the elements inside an element have been read, the others are still to come. -/
structure Ready (model before : Model) (place : NodeId → NodeId) (parent : NodeId)
    (done todo : List NodeId) : Prop where
  /-- These are all elements directly inside it. -/
  children_eq : (model.node parent).children = done ++ todo
  /-- The element around them has been started. -/
  lt_size : place parent < before.size
  /-- It has the kind of the rendered one. -/
  kind_eq : before.kind (place parent) = model.kind parent
  /-- Those that have been read are inside it. -/
  done_eq : (before.node (place parent)).children = done.map place
  /-- They have the kinds of the rendered ones. -/
  done_kind : ∀ id ∈ done, place id < before.size ∧ place id ≠ place parent ∧
    before.kind (place id) = model.kind id

/-- Some elements have been read at their places, together with all those inside them, which are
`order` in document order. -/
structure Grows (model before after : Model) (place : NodeId → NodeId) (parent : NodeId)
    (ids order : List NodeId) : Prop where
  /-- All of them have been added. -/
  size_eq : after.size = before.size + order.length
  /-- They are the last ones directly inside the element around them. -/
  node_parent : after.node (place parent) =
    { before.node (place parent) with
      children := (before.node (place parent)).children ++ ids.map place }
  /-- The elements from before are what they were. -/
  node_of_lt : ∀ other, other < before.size → other ≠ place parent →
    after.node other = before.node other
  /-- The new elements are those that were rendered. -/
  copy : ∀ id ∈ order, Copy model after place id

/-- Reading no element changes nothing. -/
theorem Grows.refl (model before : Model) (place : NodeId → NodeId) (parent : NodeId) :
    Grows model before before place parent [] [] where
  size_eq := rfl
  node_parent := by
    rw [List.map_nil, List.append_nil]
  node_of_lt _ _ _ := rfl
  copy _ h := by cases h

/-- Elements are read one after the other. -/
theorem Grows.append {middle : Model} {ids later order order' : List NodeId}
    (h : Grows model before middle place parent ids order)
    (h' : Grows model middle after place parent later order') (hlt : place parent < before.size)
    (hplaces : ∀ id ∈ order, before.size ≤ place id ∧ place id < middle.size) :
    Grows model before after place parent (ids ++ later) (order ++ order') where
  size_eq := by
    rw [h'.size_eq, h.size_eq, List.length_append, Nat.add_assoc]
  node_parent := by
    rw [h'.node_parent, h.node_parent, List.map_append, List.append_assoc]
  node_of_lt other hother hne := by
    have hlt' : other < middle.size := by
      rw [h.size_eq]
      exact Nat.lt_add_right _ hother
    rw [h'.node_of_lt other hlt' hne, h.node_of_lt other hother hne]
  copy id hid := by
    rcases List.mem_append.1 hid with hid | hid
    · obtain ⟨hle, hsize⟩ := hplaces id hid
      refine (h.copy id hid).congr (h'.node_of_lt _ hsize fun heq => ?_)
      -- The new elements have higher numbers than the one around them.
      exact absurd hlt (Nat.not_lt.2 (heq ▸ hle))
    · exact h'.copy id hid

/-- When one more element has been read, the others are still to come. -/
theorem Ready.next {id : NodeId} {order : List NodeId}
    (h : Ready model before place parent done (id :: todo))
    (hgrows : Grows model before after place parent [id] (id :: order))
    (hplace : place id = before.size) :
    Ready model after place parent (done ++ [id]) todo where
  children_eq := by
    rw [h.children_eq, List.append_assoc, List.singleton_append]
  lt_size := by
    rw [hgrows.size_eq]
    exact Nat.lt_add_right _ h.lt_size
  kind_eq := by
    rw [Model.kind, hgrows.node_parent]
    exact h.kind_eq
  done_eq := by
    rw [hgrows.node_parent, h.done_eq, List.map_append]
  done_kind other hother := by
    rw [hgrows.size_eq]
    rcases List.mem_append.1 hother with hother | hother
    · obtain ⟨hlt, hne, hkind⟩ := h.done_kind other hother
      refine ⟨Nat.lt_add_right _ hlt, hne, ?_⟩
      rw [Model.kind, hgrows.node_of_lt _ hlt hne]
      exact hkind
    · obtain rfl := List.mem_singleton.1 hother
      -- The element that was read last has the next number.
      refine ⟨?_, ?_, (hgrows.copy other List.mem_cons_self).kind_eq⟩
      · rw [hplace, List.length_cons]
        exact Nat.lt_add_of_pos_right (Nat.succ_pos _)
      · rw [hplace]
        exact (Nat.ne_of_lt h.lt_size).symm

/-- The next element is not refused. -/
theorem Ready.refusal?_eq_none {id : NodeId} (hmodel : model.WellFormed)
    (h : Ready model before place parent done (id :: todo)) :
    before.refusal? (place parent) (model.kind id) = none := by
  have hmem : id ∈ (model.node parent).children := by
    rw [h.children_eq]
    exact List.mem_append_right _ List.mem_cons_self
  refine refusal?_eq_none_iff.2 ⟨?_, fun hrepeats child hchild => ?_⟩
  · rw [h.kind_eq]
    exact hmodel.kind_mem hmem
  · rw [h.done_eq] at hchild
    obtain ⟨earlier, hearlier, rfl⟩ := List.mem_map.1 hchild
    rw [(h.done_kind earlier hearlier).2.2]
    intro hkind
    have hmem' : earlier ∈ (model.node parent).children := by
      rw [h.children_eq]
      exact List.mem_append_left _ hearlier
    -- Both would have to be the same element, but no element is listed twice.
    have hsame := hmodel.single hmem' hmem hkind (hkind ▸ hrepeats)
    have hnodup := hmodel.nodup parent
    rw [h.children_eq] at hnodup
    exact (List.nodup_append.1 hnodup).2.2 _ hearlier _ List.mem_cons_self hsame

/-- The elements inside an element, in document order, at most `bound` levels deep. -/
def insideOrder (model : Model) (bound : Nat) (ids : List NodeId) : List NodeId :=
  ids.flatMap (preorder (fun id => (model.node id).children) bound)

/-- Elements that can be rendered in so many levels are read at their places, in front of anything
that can be read behind them. -/
def ReadsBack (model : Model) (place : NodeId → NodeId) (bound : Nat) : Prop :=
  ∀ {parent : NodeId} {done todo : List NodeId} {before : Model} (depth offset : Nat),
    Ready model before place parent done todo → model.Fits bound todo →
    Consecutive place before.size (model.insideOrder bound todo) →
    ∃ after offset', Grows model before after place parent todo (model.insideOrder bound todo) ∧
      ∀ {last : Content} {final : Model},
        Reads (place parent) (model.kind parent) offset' last after final →
        Reads (place parent) (model.kind parent) offset
          (model.renderedAll bound depth todo last) before final

/-- Elements of a kind that carries a text hold no elements. -/
theorem WellFormed.children_eq_nil (h : model.WellFormed) {id : NodeId}
    (htext : (model.kind id).hasText = true) : (model.node id).children = [] := by
  have hkinds : ∀ kind ∈ NodeKind.all, kind.hasText = true → kind.childKinds = [] := by decide
  rw [List.eq_nil_iff_forall_not_mem]
  intro child hchild
  have hmem := h.kind_mem hchild
  rw [hkinds _ (NodeKind.mem_all _) htext] at hmem
  cases hmem

/-- Line breaks and indents are blank. -/
theorem isBlankText_lineBreak (depth : Nat) : Text.isBlankText (lineBreak depth) = true := by
  rw [Text.isBlankText, lineBreak, indent, List.all_cons, List.all_replicate]
  simp [Text.isBlank]

/-- When an element has been started, those inside it are still to come. -/
theorem Adds.ready {id : NodeId} (h : Adds (model.node id) (place parent) before after)
    (hplace : place id = before.size) :
    Ready model after place id [] (model.node id).children where
  children_eq := rfl
  lt_size := by
    rw [hplace, h.size_eq]
    exact Nat.lt_succ_self _
  kind_eq := by
    rw [hplace, Model.kind, h.node_size]
    rfl
  done_eq := by
    rw [hplace, h.node_size]
    rfl
  done_kind other hother := by cases hother

/-- What an element adds that carries a text. -/
theorem Adds.grows_putText {id : NodeId} (h : Adds (model.node id) (place parent) before after)
    (hplace : place id = before.size) (hlt : place parent < before.size) {text : Text}
    (htext : (model.node id).text = some text) (hnil : (model.node id).children = [])
    (span : Span) (selfClosing : Bool) :
    Grows model before (after.putText before.size span selfClosing text) place parent [id]
      [id] := by
  have hlt' : before.size < after.size := by
    rw [h.size_eq]
    exact Nat.lt_succ_self _
  have hnode : (after.putText before.size span selfClosing text).node before.size =
      { after.node before.size with
        text := some text, slot := some ⟨span, selfClosing, text⟩ } := by
    rw [putText, node_update, if_pos ⟨rfl, hlt'⟩]
  -- The text is put into the new element, and the others are what they were when it was added.
  have hothers (other : NodeId) (hne : other ≠ before.size) :
      (after.putText before.size span selfClosing text).node other = after.node other := by
    rw [putText, node_update_of_ne _ hne.symm]
  exact {
    size_eq := (size_putText ..).trans h.size_eq
    node_parent := by
      rw [hothers _ (Nat.ne_of_lt hlt), h.node_parent, List.map_singleton, hplace]
    node_of_lt := by
      intro other hother hne
      rw [hothers _ (Nat.ne_of_lt hother), h.node_of_ne _ (Nat.ne_of_lt hother) hne]
    copy := by
      intro other hother
      obtain rfl := List.mem_singleton.1 hother
      rw [h.node_size] at hnode
      exact {
        kind_eq := by
          rw [hplace, Model.kind, hnode]
          rfl
        attributes_eq := by rw [hplace, hnode]
        text_eq := by rw [hplace, hnode, htext]
        children_eq := by
          rw [hplace, hnode, hnil]
          rfl } }

/-- What an element adds that is around others. -/
theorem Adds.grows_inside {inside : Model} {id : NodeId} {order : List NodeId}
    (h : Adds (model.node id) (place parent) before after) (hplace : place id = before.size)
    (hlt : place parent < before.size) (htext : (model.node id).text = none)
    (hkind : (model.kind id).hasText = false)
    (hinside : Grows model after inside place id (model.node id).children order) :
    Grows model before inside place parent [id] (id :: order) := by
  have hnode : inside.node before.size = { after.node before.size with
      children := (model.node id).children.map place } := by
    have hparent := hinside.node_parent
    rw [hplace] at hparent
    rw [hparent, h.node_size]
    rfl
  -- The elements from before come before the new one, so reading what is inside it keeps them.
  have hold (other : NodeId) (hother : other < before.size) :
      inside.node other = after.node other := by
    refine hinside.node_of_lt other ?_ ?_
    · rw [h.size_eq]
      exact Nat.lt_succ_of_lt hother
    · rw [hplace]
      exact Nat.ne_of_lt hother
  exact {
    size_eq := by
      rw [hinside.size_eq, h.size_eq, List.length_cons]
      omega
    node_parent := by
      rw [hold _ hlt, h.node_parent, List.map_singleton, hplace]
    node_of_lt := by
      intro other hother hne
      rw [hold other hother, h.node_of_ne _ (Nat.ne_of_lt hother) hne]
    copy := by
      intro other hother
      rcases List.mem_cons.1 hother with rfl | hother
      · rw [h.node_size] at hnode
        exact {
          kind_eq := by
            rw [hplace, Model.kind, hnode]
            rfl
          attributes_eq := by rw [hplace, hnode]
          text_eq := by
            have hnone : (Node.ofKind (model.kind other) (some (place parent))).text = none := by
              rw [Node.ofKind, hkind]
              rfl
            rw [hplace, hnode, htext]
            exact hnone
          children_eq := by rw [hplace, hnode] }
      · exact hinside.copy other hother }

/-- A rendered element is read at its place if those inside it are. -/
theorem ReadsBack.reads_renderedOnto {id : NodeId} (hmodel : model.WellFormed)
    (hinner : ReadsBack model place bound)
    (hready : Ready model before place parent done (id :: todo))
    (hfits : model.Fits bound (model.node id).children)
    (hplaces : Consecutive place before.size
      (id :: model.insideOrder bound (model.node id).children)) (depth offset : Nat) :
    ∃ after offset', Grows model before after place parent [id]
        (id :: model.insideOrder bound (model.node id).children) ∧
      ∀ {next : Content} {final : Model},
        Reads (place parent) (model.kind parent) offset' next after final →
        Reads (place parent) (model.kind parent) offset
          (model.renderedOnto (bound + 1) depth id next) before final := by
  obtain ⟨hplace, hinside⟩ := hplaces.head
  have hlt := hready.lt_size
  have hstart := exists_readStart hlt (hmodel.nodup_attributes id)
    (hready.refusal?_eq_none hmodel)
  have hkind : NodeKind.ofTag? (model.node id).startTag.name = some (model.kind id) :=
    NodeKind.ofTag?_tag _
  have hholds := hmodel.isSome_text id
  rw [text?] at hholds
  let innerStart := offset + Text.size (model.node id).startTag.startText
  -- What is written depends on whether the element has a text, and if not, whether it has children.
  cases htext : (model.node id).text with
  | some text =>
    rw [htext, Option.isSome_some] at hholds
    have hnil := hmodel.children_eq_nil hholds.symm
    let innerStop := innerStart + Text.size (Content.ofText text).text
    let stop := innerStop + Text.size (model.node id).endTag.text
    obtain ⟨started, hstarted, hadds⟩ := hstart ⟨offset, stop⟩
    refine ⟨started.putText before.size ⟨innerStart, innerStop⟩ false text, stop, ?_, ?_⟩
    · rw [hnil]
      exact hadds.grows_putText hplace hlt htext hnil ..
    · intro next final hnext
      rw [renderedOnto_of_text htext]
      exact .text hkind hholds.symm rfl hstarted (readText_ofText ..) hnext
  | none =>
    rw [htext, Option.isSome_none] at hholds
    by_cases hnil : (model.node id).children = []
    · let stop := offset + Text.size (model.node id).startTag.emptyText
      obtain ⟨started, hstarted, hadds⟩ := hstart ⟨offset, stop⟩
      refine ⟨started, stop, ?_, ?_⟩
      · have hnothing : Grows model started started place id (model.node id).children [] := by
          rw [hnil]
          exact .refl model started place id
        have hgrows := hadds.grows_inside hplace hlt htext hholds.symm hnothing
        rw [hnil]
        exact hgrows
      · intro next final hnext
        rw [renderedOnto_of_isEmpty htext hnil]
        exact .holderEmpty hkind hholds.symm hstarted hnext
    · let inner := model.renderedAll bound (depth + 1) (model.node id).children
        (.chars (lineBreak depth) .nil)
      let stop := innerStart + Text.size inner.text + Text.size (model.node id).endTag.text
      obtain ⟨started, hstarted, hadds⟩ := hstart ⟨offset, stop⟩
      obtain ⟨inside, offset', hgrows, hreads⟩ := hinner (depth + 1) innerStart
        (hadds.ready hplace) hfits (hadds.size_eq ▸ hinside)
      refine ⟨inside, stop, hadds.grows_inside hplace hlt htext hholds.symm hgrows, ?_⟩
      intro next final hnext
      rw [renderedOnto_of_ne_nil htext hnil]
      have hread : Reads (place id) (model.kind id) innerStart inner started inside :=
        hreads (.chars (isBlankText_lineBreak depth) (.nil inside))
      rw [hplace] at hread
      exact .holder hkind hholds.symm rfl hstarted hread hnext

/-- Rendered elements are read at their places, in however many levels. -/
theorem reads_renderedAll (hmodel : model.WellFormed) (place : NodeId → NodeId) (bound : Nat) :
    ReadsBack model place bound := by
  -- The outer induction goes down the levels, the inner one along the elements of a level.
  induction bound with
  | zero =>
    intro parent done todo before depth offset hready hfits hplaces
    cases todo with
    | nil => exact ⟨before, offset, .refl model before place parent, fun h => h⟩
    | cons id later =>
      obtain ⟨bound', hbound'⟩ := hfits.exists_eq_succ List.mem_cons_self
      cases hbound'
  | succ bound ih =>
    intro parent done todo before depth offset hready hfits hplaces
    induction todo generalizing done before offset with
    | nil => exact ⟨before, offset, .refl model before place parent, fun h => h⟩
    | cons id later ihlater =>
      obtain ⟨hfirst, hlater⟩ := hplaces.of_append
      have hchildren := Fits.children hmodel (hfits id List.mem_cons_self).2
      obtain ⟨middle, offset', hgrows, hreads⟩ := ih.reads_renderedOnto hmodel hready hchildren
        hfirst depth (offset + Text.size (lineBreak depth))
      have hsize := hgrows.size_eq
      obtain ⟨after, offset'', hgrows', hreads'⟩ := ihlater offset'
        (hready.next hgrows hfirst.head.1) (fun id hid => hfits id (List.mem_cons_of_mem _ hid))
        (hsize ▸ hlater)
      refine ⟨after, offset'', ?_, ?_⟩
      · refine hgrows.append hgrows' hready.lt_size fun other hother => ?_
        rw [hsize]
        exact hfirst.bounds hother
      · intro last final hlast
        exact .chars (isBlankText_lineBreak depth) (hreads (hreads' hlast))

/-! ## Whole models -/

/-- In document order the root is the first element. -/
theorem documentOrder_eq_cons (hmodel : model.WellFormed) :
    model.documentOrder =
      root :: model.insideOrder (model.size - 1) (model.node root).children := by
  obtain ⟨bound, hbound⟩ := Nat.exists_eq_add_one_of_ne_zero (Nat.ne_of_gt hmodel.pos)
  rw [documentOrder, hbound]
  rfl

/-- The root that has been read, with elements inside it, is the one that was rendered. -/
theorem copy_root (hmodel : model.WellFormed) (hplace : place root = root)
    (hnode : before.node root =
      { Node.ofKind .nta none with attributes := (model.node root).attributes })
    {order : List NodeId}
    (h : Grows model before after place root (model.node root).children order) :
    Copy model after place root := by
  have hparent := h.node_parent
  rw [hplace, hnode] at hparent
  have htext : (model.node root).text = none :=
    hmodel.text?_eq_none (by rw [hmodel.kind_root]; rfl)
  exact {
    kind_eq := by
      rw [hplace, Model.kind, hparent, hmodel.kind_root]
      rfl
    attributes_eq := by rw [hplace, hparent]
    text_eq := by
      rw [hplace, hparent, htext]
      rfl
    children_eq := by
      rw [hplace, hparent]
      rfl }

/-- When the root has been read, the elements inside it are still to come. -/
theorem ready_root (hmodel : model.WellFormed) (hplace : place root = root)
    (hlt : root < before.size)
    (hnode : before.node root =
      { Node.ofKind .nta none with attributes := (model.node root).attributes }) :
    Ready model before place root [] (model.node root).children where
  children_eq := rfl
  lt_size := by
    rw [hplace]
    exact hlt
  kind_eq := by
    rw [hplace, Model.kind, hnode, hmodel.kind_root]
    rfl
  done_eq := by
    rw [hplace, hnode]
    rfl
  done_kind other hother := by cases hother

/-- The rendered root element is read into a model with the same elements, each at its place. -/
theorem exists_readRoot (hmodel : model.WellFormed)
    (hplaces : Consecutive place 0 model.documentOrder) :
    ∃ again, readRoot 0 model.renderedRoot = .ok again ∧
      again.size = model.documentOrder.length ∧
      ∀ id ∈ model.documentOrder, Copy model again place id := by
  rw [documentOrder_eq_cons hmodel] at hplaces ⊢
  obtain ⟨hplace, hinside⟩ := hplaces.head
  have hplaceRoot : place root = root := hplace
  have htag : NodeKind.ofTag? (model.node root).startTag.name = some .nta := by
    rw [← hmodel.kind_root]
    exact NodeKind.ofTag?_tag _
  have hlt : root < empty.size := Nat.one_pos
  obtain ⟨started, hstarted, hsize, hnode, -⟩ := exists_readAttributes hlt
    (hmodel.nodup_attributes root) (0 + 1 + Text.size (model.node root).startTag.name)
  -- What is inside the root grows from the root alone.
  obtain ⟨again, hread, hgrows⟩ : ∃ again, readRoot 0 model.renderedRoot = .ok again ∧
      Grows model started again place root (model.node root).children
        (model.insideOrder (model.size - 1) (model.node root).children) := by
    by_cases hnil : (model.node root).children = []
    · have hroot : model.renderedRoot = .empty (model.node root).startTag := by
        simp only [renderedRoot, hnil, List.isEmpty_nil, if_pos]
      rw [hroot, hnil]
      exact ⟨started, readRoot_eq_ok.2 ⟨htag, started, hstarted, rfl⟩, .refl ..⟩
    · have hroot : model.renderedRoot = .element (model.node root).startTag
          (model.renderedAll (model.size - 1) 1 (model.node root).children
            (.chars (lineBreak 0) .nil)) (model.node root).endTag := by
        simp only [renderedRoot, List.isEmpty_eq_false_iff.2 hnil, Bool.false_eq_true, if_false]
      have hready : Ready model started place root [] (model.node root).children :=
        ready_root hmodel hplaceRoot (by rw [hsize]; exact hlt) hnode
      have hstart : Consecutive place started.size
          (model.insideOrder (model.size - 1) (model.node root).children) := by
        rw [hsize]
        exact hinside
      obtain ⟨again, offset', hgrows, hreads⟩ := reads_renderedAll hmodel place (model.size - 1) 1
        (0 + Text.size (model.node root).startTag.startText) hready (.root hmodel) hstart
      rw [hroot]
      refine ⟨again, readRoot_eq_ok.2 ⟨htag, started, hstarted, rfl, ?_⟩, hgrows⟩
      have hread := hreads (.chars (isBlankText_lineBreak 0) (.nil again))
      rw [hplaceRoot, hmodel.kind_root] at hread
      exact hread
  refine ⟨again, hread, ?_, List.forall_mem_cons.2 ⟨copy_root hmodel hplaceRoot hnode hgrows,
    hgrows.copy⟩⟩
  rw [hgrows.size_eq, hsize, List.length_cons, Nat.add_comm]
  rfl

/-- The place of an element in document order. -/
def documentPlace (model : Model) (id : NodeId) : NodeId :=
  model.documentOrder.idxOf id

/-- Every element of a tree comes exactly once in document order. -/
theorem WellFormed.perm_documentOrder (h : model.WellFormed) :
    model.documentOrder.Perm (List.range model.size) :=
  h.lists.perm_preorder h.pos

theorem consecutive_documentPlace (hnodup : model.documentOrder.Nodup) :
    Consecutive model.documentPlace 0 model.documentOrder := by
  refine List.ext_getElem (by simp) fun index hindex hindex' => ?_
  rw [List.getElem_map, List.getElem_range', documentPlace, hnodup.idxOf_getElem, Nat.one_mul,
    Nat.zero_add]

/-- Two models with the same elements at the places of document order list the same elements. -/
theorem listing_eq_of_copy (hsize : other.size = model.size) (hplace : place root = root)
    (hcopy : ∀ id ∈ model.documentOrder, Copy model other place id) :
    other.listing = model.listing := by
  have horder : other.documentOrder = model.documentOrder.map place := by
    rw [documentOrder, hsize, ← hplace]
    exact preorder_map fun id hid => (hcopy id hid).children_eq
  rw [listing, listing, horder, List.map_map]
  exact List.map_congr_left fun id hid => (hcopy id hid).entry_eq

/-- A model that was built without a document is written as one from which the same tree is read:
the same elements in the same document order, with the same kinds, attributes and texts, and with
as many elements inside each. Document order leaves out no element of either model. -/
theorem read_render (h : model.Built) :
    ∃ written again, model.write = .ok written ∧ read written = .ok again ∧
      again.listing = model.listing ∧ model.documentOrder.Perm (List.range model.size) ∧
      again.documentOrder.Perm (List.range again.size) := by
  have hmodel := h.wellFormed
  have hperm := hmodel.perm_documentOrder
  have hplaces := consecutive_documentPlace (hmodel.lists.nodup_preorder model.size root)
  obtain ⟨rooted, hrooted, hsize, hcopy⟩ := exists_readRoot hmodel hplaces
  have hepilog : miscs (['\n'] : Text).length ['\n'] = (['\n'], []) := rfl
  have hdocument :=
    Document.read_of_wellFormed (wellFormed_renderedRoot hmodel h.named) hepilog
  let again := { rooted with document := some model.render }
  have hagain : read model.render = .ok again := by
    rw [read, render_eq_text hmodel, hdocument]
    exact Except.map_eq_ok.2 ⟨rooted, hrooted, by rw [← render_eq_text hmodel]⟩
  have hlength : again.size = model.size := by
    rw [show again.size = rooted.size from rfl, hsize, hperm.length_eq, List.length_range]
  have hroot : model.documentPlace root = root := by
    have hcons := hplaces
    rw [documentOrder_eq_cons hmodel] at hcons
    exact hcons.head.1
  refine ⟨model.render, again, ?_, hagain, ?_, hperm, ?_⟩
  · rw [write, h.document_eq_none]
  · exact listing_eq_of_copy hlength hroot fun id hid => (hcopy id hid).congr rfl
  · exact (wellFormed_of_read hagain).perm_documentOrder

/-- A template and a declaration behind it. -/
def declared : Model :=
  (empty.insert root .template).insert root .declaration

/-- The same with a name of the template, which is added last. -/
def laterNamed : Model :=
  ((declared.insert 1 .name).update 3 fun node =>
    { node with text := some " P < Q & R\n".toList }).setAttribute 1 "x".toList "\"<'&\n".toList

/-- The name comes before the declaration in document order, although it was added later. -/
theorem read_render_laterNamed :
    laterNamed.Built ∧ ∃ written again, laterNamed.write = .ok written ∧
      read written = .ok again ∧ again.listing = laterNamed.listing ∧
      laterNamed.documentOrder.Perm (List.range laterNamed.size) ∧
      again.documentOrder.Perm (List.range again.size) := by
  have htemplate : (empty.insert root .template).Built :=
    .addChild .empty (show root < empty.size by decide)
      (show empty.addChild root .template = .ok (1, _) from rfl)
  have hdeclared : declared.Built :=
    .addChild htemplate (show root < (empty.insert root .template).size by decide)
      (show (empty.insert root .template).addChild root .declaration = .ok (2, _) from rfl)
  have hname : (declared.insert 1 .name).Built :=
    .addChild hdeclared (show 1 < declared.size by decide)
      (show declared.addChild 1 .name = .ok (3, _) from rfl)
  have hnamed := Built.setText hname
    (show (declared.insert 1 .name).setText 3 " P < Q & R\n".toList = .ok _ from rfl)
  have hbuilt : laterNamed.Built :=
    .setAttribute 1 "\"<'&\n".toList hnamed (show isName "x".toList = true by decide)
  exact ⟨hbuilt, read_render hbuilt⟩

/-- The template comes with its attribute and around the name. -/
example : laterNamed.render =
    ("<nta>\n  <template x=\"&quot;&lt;'&amp;\n\">\n    <name> P &lt; Q &amp; R\n</name>\n" ++
      "  </template>\n  <declaration></declaration>\n</nta>\n").toList := by
  decide +kernel

end Retrace.Model
