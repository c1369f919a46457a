import Retrace.Model.Document
import Retrace.Proofs.Except
import Retrace.Proofs.Model.WellFormed

/-!
# Reading models

What a content does to a model is laid down piece by piece in the relation `Model.Reads`: a piece
adds no element, or one element with a text, or one element together with those inside it. What is
read never changes anything about earlier elements but their lists of children, and every element
that has a text knows the slot that the text was read from. The elements form a tree at every step,
and so every model that is read from a document is well-formed.

## Main definitions

* `Markup.Content.count`: the number of elements in a content;
* `Model.Starts`: what the start of an element does to a model;
* `Model.Reads`, `Model.ReadsRoot`: a content turns one model into another;
* `Model.Keeps`: a model has the elements of an earlier one, with the same kinds and slots;
* `Model.Slotted`: the text of every element is the one that its slot was read with.

## Main results

* `Model.readChildren_eq_ok`, `Model.readRoot_eq_ok`: contents and root elements are read as
  `Model.Reads` says;
* `Model.size_of_reads`, `Model.keeps_of_reads`, `Model.slotted_of_reads`: what is known of a model
  after a content has been read;
* `Model.wellFormed_of_read`: models that are read from documents are well-formed.
-/

namespace Retrace

/-- The number of elements of a model that are read from a content. -/
def Markup.Content.count : Markup.Content → Nat
  | nil => 0
  | chars _ next => next.count
  | comment _ next => next.count
  | empty tag next =>
    match NodeKind.ofTag? tag.name with
    | none => next.count
    | some _ => next.count + 1
  | element tag inner _ next =>
    match NodeKind.ofTag? tag.name with
    | none => next.count
    | some kind => if kind.hasText then next.count + 1 else inner.count + next.count + 1

namespace Model

open Markup

/-! ## Starting an element -/

/-- A new element of a kind stands behind all others, and of the others only children and attributes
may have changed. -/
structure Starts (kind : NodeKind) (model : Model) (id : NodeId) (started : Model) : Prop where
  /-- The new element has the first number that was free. -/
  id_eq : id = model.size
  /-- There is one more element. -/
  size_eq : started.size = model.size + 1
  /-- The new element has attributes, but neither children nor a slot. -/
  node_id : ∃ parent attributes, started.node id = { Node.ofKind kind parent with attributes }
  /-- The other elements are what they were. -/
  node_of_ne : ∀ other, other ≠ id → ∃ children attributes,
    started.node other = { model.node other with children, attributes }

/-- Reading attributes changes nothing but attributes. -/
theorem node_of_readAttributes {id : NodeId} {offset : Nat} {attributes : List Attribute}
    {model edited : Model} (h : readAttributes id offset attributes model = .ok edited) :
    edited.size = model.size ∧
      ∀ other, ∃ attributes, edited.node other = { model.node other with attributes } := by
  induction attributes generalizing offset model with
  | nil =>
    obtain rfl := Except.ok.inj h
    exact ⟨rfl, fun other => ⟨(model.node other).attributes, rfl⟩⟩
  | cons first later ih =>
    unfold readAttributes at h
    split at h
    · cases h
    · rename_i value _
      obtain ⟨hsize, hnode⟩ := ih h
      refine ⟨hsize.trans (size_update ..), ?_⟩
      intro other
      obtain ⟨attributes, heq⟩ := hnode other
      refine ⟨attributes, ?_⟩
      -- Setting an attribute is visible in the element alone that has it.
      rw [heq, setAttribute, node_update]
      split
      · rename_i hand
        rw [hand.1]
        rfl
      · rfl

/-- The start of an element adds an element of its kind. -/
theorem starts_of_readStart {parent id : NodeId} {kind : NodeKind} {tag : Tag} {span : Span}
    {model started : Model} (h : readStart parent kind tag span model = .ok (id, started)) :
    Starts kind model id started := by
  obtain ⟨⟨id', added⟩, hadd, h⟩ := Except.bind_eq_ok.1 h
  obtain ⟨read, hread, h⟩ := Except.bind_eq_ok.1 h
  obtain ⟨rfl, rfl⟩ := Prod.mk.inj (Except.ok.inj h)
  obtain ⟨-, rfl, rfl⟩ := addChild_eq_ok (Except.mapError_eq_ok.1 hadd)
  obtain ⟨hsize, hnode⟩ := node_of_readAttributes hread
  refine ⟨rfl, hsize.trans (size_insert ..), ?_, ?_⟩
  · obtain ⟨attributes, heq⟩ := hnode model.size
    refine ⟨some parent, attributes, ?_⟩
    rw [heq, node_insert, if_pos rfl]
  · intro other hne
    -- Of the others, only the element around the new one has changed: it has another child.
    obtain ⟨attributes, heq⟩ := hnode other
    rw [heq, node_insert, if_neg hne]
    split
    · exact ⟨_, attributes, rfl⟩
    · exact ⟨(model.node other).children, attributes, rfl⟩

/-! ## Reading piece by piece -/

/-- Reading the content of the element `parent`, which begins at `offset`, turns the first model
into the second. -/
inductive Reads : (parent : NodeId) → (parentKind : NodeKind) → (offset : Nat) → Content →
    (model after : Model) → Prop where
  /-- There is nothing to read. -/
  | nil {parent : NodeId} {parentKind : NodeKind} {offset : Nat} (model : Model) :
    Reads parent parentKind offset .nil model model
  /-- Blanks may stand between elements. -/
  | chars {parent : NodeId} {parentKind : NodeKind} {offset : Nat} {raw : Text} {next : Content}
      {model after : Model} : Text.isBlankText raw = true →
    Reads parent parentKind (offset + Text.size raw) next model after →
    Reads parent parentKind offset (.chars raw next) model after
  /-- So may comments. -/
  | comment {parent : NodeId} {parentKind : NodeKind} {offset : Nat} {body : Text}
      {next : Content} {model after : Model} :
    Reads parent parentKind (offset + Text.size (commentText body)) next model after →
    Reads parent parentKind offset (.comment body next) model after
  /-- An unknown element without content is left out. -/
  | unknownEmpty {parent : NodeId} {parentKind : NodeKind} {offset : Nat} {tag : Tag}
      {next : Content} {model after : Model} : NodeKind.ofTag? tag.name = none →
    Reads parent parentKind (offset + Text.size tag.emptyText) next model after →
    Reads parent parentKind offset (.empty tag next) model after
  /-- An element that holds a text may be written without content; its slot is the end of the
  tag. -/
  | textEmpty {parent id : NodeId} {parentKind kind : NodeKind} {offset : Nat} {tag : Tag}
      {next : Content} {model started after : Model} : NodeKind.ofTag? tag.name = some kind →
    kind.hasText = true →
    readStart parent kind tag ⟨offset, offset + Text.size tag.emptyText⟩ model =
      .ok (id, started) →
    Reads parent parentKind (offset + Text.size tag.emptyText) next
      (started.putText id
        ⟨offset + Text.size tag.front, offset + Text.size tag.emptyText⟩ true []) after →
    Reads parent parentKind offset (.empty tag next) model after
  /-- An element that holds elements may be written without content. -/
  | holderEmpty {parent id : NodeId} {parentKind kind : NodeKind} {offset : Nat} {tag : Tag}
      {next : Content} {model started after : Model} : NodeKind.ofTag? tag.name = some kind →
    kind.hasText = false →
    readStart parent kind tag ⟨offset, offset + Text.size tag.emptyText⟩ model =
      .ok (id, started) →
    Reads parent parentKind (offset + Text.size tag.emptyText) next started after →
    Reads parent parentKind offset (.empty tag next) model after
  /-- An unknown element is left out with all its content. -/
  | unknown {parent : NodeId} {parentKind : NodeKind} {offset : Nat} {tag : Tag} {close : EndTag}
      {inner next : Content} {model after : Model} : NodeKind.ofTag? tag.name = none →
    close.name = tag.name →
    Reads parent parentKind
      (offset + Text.size tag.startText + Text.size inner.text + Text.size close.text) next
      model after →
    Reads parent parentKind offset (.element tag inner close next) model after
  /-- The content of an element that holds a text is its slot. -/
  | text {parent id : NodeId} {parentKind kind : NodeKind} {offset : Nat} {tag : Tag}
      {close : EndTag} {inner next : Content} {text : Text} {model started after : Model} :
    NodeKind.ofTag? tag.name = some kind → kind.hasText = true → close.name = tag.name →
    readStart parent kind tag ⟨offset,
      offset + Text.size tag.startText + Text.size inner.text + Text.size close.text⟩ model =
      .ok (id, started) →
    readText kind (offset + Text.size tag.startText) inner = .ok text →
    Reads parent parentKind
      (offset + Text.size tag.startText + Text.size inner.text + Text.size close.text) next
      (started.putText id ⟨offset + Text.size tag.startText,
        offset + Text.size tag.startText + Text.size inner.text⟩ false text) after →
    Reads parent parentKind offset (.element tag inner close next) model after
  /-- The content of an element that holds elements comes before what stands behind it. -/
  | holder {parent id : NodeId} {parentKind kind : NodeKind} {offset : Nat} {tag : Tag}
      {close : EndTag} {inner next : Content} {model started inside after : Model} :
    NodeKind.ofTag? tag.name = some kind → kind.hasText = false → close.name = tag.name →
    readStart parent kind tag ⟨offset,
      offset + Text.size tag.startText + Text.size inner.text + Text.size close.text⟩ model =
      .ok (id, started) →
    Reads id kind (offset + Text.size tag.startText) inner started inside →
    Reads parent parentKind
      (offset + Text.size tag.startText + Text.size inner.text + Text.size close.text) next
      inside after →
    Reads parent parentKind offset (.element tag inner close next) model after

/-- The end tag must have the name of the element. -/
theorem checkClose_eq_ok {tag : Tag} {close : EndTag} {offset : Nat} :
    checkClose tag close offset = .ok () ↔ close.name = tag.name := by
  simp [checkClose]

theorem reads_of_readChildren {parent : NodeId} {parentKind : NodeKind} {offset : Nat}
    {content : Content} {model after : Model}
    (h : readChildren parent parentKind offset content model = .ok after) :
    Reads parent parentKind offset content model after := by
  -- Every way through the reader that does not fail is one of the constructors.
  induction content generalizing parent parentKind offset model after with
  | nil =>
    obtain rfl := Except.ok.inj h
    exact .nil model
  | chars raw next ih =>
    unfold readChildren at h
    split at h
    · rename_i hblank
      exact .chars hblank (ih h)
    · cases h
  | comment body next ih => exact .comment (ih h)
  | empty tag next ih =>
    unfold readChildren at h
    split at h
    · rename_i hkind
      exact .unknownEmpty hkind (ih h)
    · rename_i kind hkind
      obtain ⟨⟨id, started⟩, hstart, h⟩ := Except.bind_eq_ok.1 h
      dsimp only at h
      split at h
      · rename_i htext
        exact .textEmpty hkind htext hstart (ih h)
      · rename_i htext
        exact .holderEmpty hkind (Bool.eq_false_iff.2 htext) hstart (ih h)
  | element tag inner close next ihinner ihnext =>
    unfold readChildren at h
    split at h
    · rename_i hkind
      obtain ⟨⟨⟩, hclose, h⟩ := Except.bind_eq_ok.1 h
      exact .unknown hkind (checkClose_eq_ok.1 hclose) (ihnext h)
    · rename_i kind hkind
      obtain ⟨⟨id, started⟩, hstart, h⟩ := Except.bind_eq_ok.1 h
      obtain ⟨⟨⟩, hclose, h⟩ := Except.bind_eq_ok.1 h
      split at h
      · rename_i htext
        obtain ⟨text, hread, h⟩ := Except.bind_eq_ok.1 h
        exact .text hkind htext (checkClose_eq_ok.1 hclose) hstart hread (ihnext h)
      · rename_i htext
        obtain ⟨inside, hinner, h⟩ := Except.bind_eq_ok.1 h
        exact .holder hkind (Bool.eq_false_iff.2 htext) (checkClose_eq_ok.1 hclose) hstart
          (ihinner hinner) (ihnext h)

/-- Contents are read piece by piece. -/
theorem readChildren_eq_ok {parent : NodeId} {parentKind : NodeKind} {offset : Nat}
    {content : Content} {model after : Model} :
    readChildren parent parentKind offset content model = .ok after ↔
      Reads parent parentKind offset content model after := by
  refine ⟨reads_of_readChildren, ?_⟩
  intro h
  -- Each piece is read as the constructor for it says, with its checks in the same order.
  induction h with
  | nil model => rfl
  | chars hblank _ ih => rw [readChildren, if_pos hblank, ih]
  | comment _ ih => rw [readChildren, ih]
  | unknownEmpty hkind _ ih => simp only [readChildren, hkind, ih]
  | textEmpty hkind htext hstart _ ih =>
    simp only [readChildren, hkind]
    refine Except.bind_eq_ok.2 ⟨_, hstart, ?_⟩
    rw [if_pos htext]
    exact ih
  | holderEmpty hkind htext hstart _ ih =>
    simp only [readChildren, hkind]
    refine Except.bind_eq_ok.2 ⟨_, hstart, ?_⟩
    rw [htext, if_neg Bool.false_ne_true]
    exact ih
  | unknown hkind hclose _ ih =>
    simp only [readChildren, hkind]
    exact Except.bind_eq_ok.2 ⟨_, checkClose_eq_ok.2 hclose, ih⟩
  | text hkind htext hclose hstart hread _ ih =>
    simp only [readChildren, hkind]
    refine Except.bind_eq_ok.2 ⟨_, hstart, ?_⟩
    refine Except.bind_eq_ok.2 ⟨_, checkClose_eq_ok.2 hclose, ?_⟩
    rw [if_pos htext]
    exact Except.bind_eq_ok.2 ⟨_, hread, ih⟩
  | holder hkind htext hclose hstart _ _ ihinner ihnext =>
    simp only [readChildren, hkind]
    refine Except.bind_eq_ok.2 ⟨_, hstart, ?_⟩
    refine Except.bind_eq_ok.2 ⟨_, checkClose_eq_ok.2 hclose, ?_⟩
    rw [htext, if_neg Bool.false_ne_true]
    exact Except.bind_eq_ok.2 ⟨_, ihinner, ihnext⟩

/-- What the content of the root element, which begins at `offset`, does to the model that holds its
attributes. -/
def ReadsRoot (offset : Nat) : Markup.Root → (started model : Model) → Prop
  | .empty _, started, model => model = started
  | .element tag inner close, started, model =>
    close.name = tag.name ∧
      Reads root .nta (offset + Text.size tag.startText) inner started model

/-- A root element is read with its attributes first and its content then. -/
theorem readRoot_eq_ok {offset : Nat} {element : Markup.Root} {model : Model} :
    readRoot offset element = .ok model ↔ NodeKind.ofTag? element.tag.name = some .nta ∧
      ∃ started, readAttributes root (offset + 1 + Text.size element.tag.name)
        element.tag.attributes empty = .ok started ∧ ReadsRoot offset element started model := by
  unfold readRoot
  dsimp only
  by_cases hkind : NodeKind.ofTag? element.tag.name = some .nta
  · rw [if_pos hkind, and_iff_right hkind, Except.bind_eq_ok]
    -- What follows the attributes depends on the form of the element.
    refine exists_congr fun started => and_congr_right fun _ => ?_
    cases element with
    | empty tag =>
      constructor
      · intro h
        exact (Except.ok.inj h).symm
      · rintro rfl
        rfl
    | element tag inner close =>
      rw [Except.bind_eq_ok]
      constructor
      · rintro ⟨⟨⟩, hclose, hinner⟩
        exact ⟨checkClose_eq_ok.1 hclose, readChildren_eq_ok.1 hinner⟩
      · rintro ⟨hclose, hinner⟩
        exact ⟨(), checkClose_eq_ok.2 hclose, readChildren_eq_ok.2 hinner⟩
  · rw [if_neg hkind]
    constructor
    · intro h
      cases h
    · intro h
      exact absurd h.1 hkind

/-- What is known when a model could be read. -/
theorem read_eq_ok {text : Text} {model : Model} (h : read text = .ok model) :
    ∃ document rooted, Document.read text = .ok document ∧
      readRoot (Text.size document.prolog) document.root = .ok rooted ∧
      model = { rooted with document := some text } := by
  unfold read at h
  split at h
  · cases h
  · rename_i document hdocument
    obtain ⟨rooted, hrooted, rfl⟩ := Except.map_eq_ok.1 h
    exact ⟨document, rooted, hdocument, hrooted, rfl⟩

/-! ## What is read stays -/

@[simp] theorem size_putText (model : Model) (id : NodeId) (span : Span) (selfClosing : Bool)
    (text : Text) : (model.putText id span selfClosing text).size = model.size :=
  size_update ..

/-- A later model has all elements of an earlier one, with the same kinds and slots. -/
structure Keeps (before after : Model) : Prop where
  /-- No element is taken away. -/
  size_le : before.size ≤ after.size
  /-- No element changes its kind. -/
  kind_eq : ∀ id, id < before.size → after.kind id = before.kind id
  /-- No element changes its slot. -/
  slot_eq : ∀ id, id < before.size → (after.node id).slot = (before.node id).slot

/-- The text of every element is the one that its slot was read with; elements without a slot have
no text. -/
def Slotted (model : Model) : Prop :=
  ∀ id, (model.node id).slot.map Slot.asRead = model.text? id

namespace Keeps

theorem refl (model : Model) : model.Keeps model :=
  ⟨Nat.le_refl _, fun _ _ => rfl, fun _ _ => rfl⟩

theorem trans {first second third : Model} (h : first.Keeps second) (h' : second.Keeps third) :
    first.Keeps third where
  size_le := Nat.le_trans h.size_le h'.size_le
  kind_eq id hlt := (h'.kind_eq id (Nat.lt_of_lt_of_le hlt h.size_le)).trans (h.kind_eq id hlt)
  slot_eq id hlt := (h'.slot_eq id (Nat.lt_of_lt_of_le hlt h.size_le)).trans (h.slot_eq id hlt)

end Keeps

namespace Starts

variable {kind : NodeKind} {model started : Model} {id : NodeId}

theorem lt_size (h : Starts kind model id started) : id < started.size := by
  rw [h.size_eq, h.id_eq]
  exact Nat.lt_succ_self _

theorem kind_id (h : Starts kind model id started) : started.kind id = kind := by
  obtain ⟨parent, attributes, heq⟩ := h.node_id
  rw [Model.kind, heq]
  rfl

/-- A new element of a kind that holds elements has no text. -/
theorem text_id (h : Starts kind model id started) (hkind : kind.hasText = false) :
    started.text? id = none := by
  obtain ⟨parent, attributes, heq⟩ := h.node_id
  rw [text?, heq, Node.ofKind, hkind]
  rfl

theorem keeps (h : Starts kind model id started) : model.Keeps started where
  size_le := by
    rw [h.size_eq]
    exact Nat.le_succ _
  kind_eq other hlt := by
    obtain ⟨children, attributes, heq⟩ := h.node_of_ne other (h.id_eq ▸ Nat.ne_of_lt hlt)
    rw [Model.kind, heq]
    rfl
  slot_eq other hlt := by
    obtain ⟨children, attributes, heq⟩ := h.node_of_ne other (h.id_eq ▸ Nat.ne_of_lt hlt)
    rw [heq]

/-- The text of the new element changes no other one. -/
theorem keeps_putText (h : Starts kind model id started) (span : Span) (selfClosing : Bool)
    (text : Text) : model.Keeps (started.putText id span selfClosing text) := by
  have hnode (other : NodeId) (hlt : other < model.size) :
      (started.putText id span selfClosing text).node other = started.node other := by
    rw [putText, node_update_of_ne]
    exact h.id_eq ▸ Nat.ne_of_gt hlt
  exact {
    size_le := by
      rw [size_putText]
      exact h.keeps.size_le
    kind_eq := by
      intro other hlt
      rw [Model.kind, hnode other hlt]
      exact h.keeps.kind_eq other hlt
    slot_eq := by
      intro other hlt
      rw [hnode other hlt]
      exact h.keeps.slot_eq other hlt }

/-- The new element has the slot that it was given with its text. -/
theorem node_putText (h : Starts kind model id started) (span : Span) (selfClosing : Bool)
    (text : Text) : (started.putText id span selfClosing text).node id =
      { started.node id with text := some text, slot := some ⟨span, selfClosing, text⟩ } := by
  rw [putText, node_update, if_pos ⟨rfl, h.lt_size⟩]

/-- The elements before the new one keep their texts and slots. -/
theorem slotted_of_ne (h : Starts kind model id started) (hmodel : model.Slotted) {other : NodeId}
    (hne : other ≠ id) : (started.node other).slot.map Slot.asRead = started.text? other := by
  obtain ⟨children, attributes, heq⟩ := h.node_of_ne other hne
  rw [text?, heq]
  exact hmodel other

/-- An element that holds elements has neither a text nor a slot. -/
theorem slotted (h : Starts kind model id started) (hkind : kind.hasText = false)
    (hmodel : model.Slotted) : started.Slotted := by
  intro other
  by_cases hid : other = id
  · obtain ⟨parent, attributes, heq⟩ := h.node_id
    rw [hid, text?, heq, Node.ofKind, hkind]
    rfl
  · exact h.slotted_of_ne hmodel hid

/-- An element that holds a text gets its text together with its slot. -/
theorem slotted_putText (h : Starts kind model id started) (hmodel : model.Slotted) (span : Span)
    (selfClosing : Bool) (text : Text) : (started.putText id span selfClosing text).Slotted := by
  intro other
  by_cases hid : other = id
  · rw [hid, text?, h.node_putText]
    rfl
  · have hne : id ≠ other := fun heq => hid heq.symm
    rw [text?, putText, node_update_of_ne _ hne]
    exact h.slotted_of_ne hmodel hid

end Starts

section Reads

variable {parent : NodeId} {parentKind : NodeKind} {offset : Nat} {content : Content}
  {model after : Model}

/-- What is read later changes neither the kind nor the slot of an element. -/
theorem keeps_of_reads (h : Reads parent parentKind offset content model after) :
    model.Keeps after := by
  induction h with
  | nil model => exact .refl model
  | chars _ _ ih => exact ih
  | comment _ ih => exact ih
  | unknownEmpty _ _ ih => exact ih
  | textEmpty _ _ hstart _ ih => exact ((starts_of_readStart hstart).keeps_putText ..).trans ih
  | holderEmpty _ _ hstart _ ih => exact (starts_of_readStart hstart).keeps.trans ih
  | unknown _ _ _ ih => exact ih
  | text _ _ _ hstart _ _ ih => exact ((starts_of_readStart hstart).keeps_putText ..).trans ih
  | holder _ _ _ hstart _ _ ihinner ihnext =>
    exact (starts_of_readStart hstart).keeps.trans (ihinner.trans ihnext)

/-- After reading, the text of every element is the one in its slot. -/
theorem slotted_of_reads (h : Reads parent parentKind offset content model after)
    (hmodel : model.Slotted) : after.Slotted := by
  induction h with
  | nil model => exact hmodel
  | chars _ _ ih => exact ih hmodel
  | comment _ ih => exact ih hmodel
  | unknownEmpty _ _ ih => exact ih hmodel
  | textEmpty _ _ hstart _ ih =>
    exact ih ((starts_of_readStart hstart).slotted_putText hmodel _ _ _)
  | holderEmpty _ hkind hstart _ ih =>
    exact ih ((starts_of_readStart hstart).slotted hkind hmodel)
  | unknown _ _ _ ih => exact ih hmodel
  | text _ _ _ hstart _ _ ih => exact ih ((starts_of_readStart hstart).slotted_putText hmodel _ _ _)
  | holder _ hkind _ hstart _ _ ihinner ihnext =>
    exact ihnext (ihinner ((starts_of_readStart hstart).slotted hkind hmodel))

/-- Every element of a content is counted. -/
theorem size_of_reads (h : Reads parent parentKind offset content model after) :
    after.size = model.size + content.count := by
  -- Texts hold no elements and unknown elements are left out, so neither is counted.
  induction h with
  | nil model => rfl
  | chars _ _ ih => exact ih
  | comment _ ih => exact ih
  | unknownEmpty hkind _ ih =>
    rw [ih]
    simp only [Content.count, hkind]
  | textEmpty hkind _ hstart _ ih =>
    rw [ih, size_putText, (starts_of_readStart hstart).size_eq]
    simp only [Content.count, hkind]
    omega
  | holderEmpty hkind _ hstart _ ih =>
    rw [ih, (starts_of_readStart hstart).size_eq]
    simp only [Content.count, hkind]
    omega
  | unknown hkind _ _ ih =>
    rw [ih]
    simp only [Content.count, hkind]
  | text hkind htext _ hstart _ _ ih =>
    rw [ih, size_putText, (starts_of_readStart hstart).size_eq]
    simp only [Content.count, hkind, htext, if_pos]
    omega
  | holder hkind htext _ hstart _ _ ihinner ihnext =>
    rw [ihnext, ihinner, (starts_of_readStart hstart).size_eq]
    simp only [Content.count, hkind, htext, Bool.false_eq_true, if_false]
    omega

end Reads

/-! ## Well-formedness -/

theorem WellFormed.putText {model : Model} (h : model.WellFormed) {id : NodeId}
    (htext : (model.kind id).hasText = true) (span : Span) (selfClosing : Bool) (text : Text) :
    (model.putText id span selfClosing text).WellFormed :=
  h.update id rfl rfl rfl htext.symm (h.nodup_attributes id)

theorem WellFormed.readAttributes {id : NodeId} {offset : Nat} {attributes : List Attribute}
    {model edited : Model} (hmodel : model.WellFormed)
    (h : readAttributes id offset attributes model = .ok edited) : edited.WellFormed := by
  induction attributes generalizing offset model with
  | nil =>
    obtain rfl := Except.ok.inj h
    exact hmodel
  | cons first later ih =>
    unfold Model.readAttributes at h
    split at h
    · cases h
    · rename_i value _
      exact ih (hmodel.setAttribute id first.name value) h

theorem WellFormed.readStart {parent id : NodeId} {kind : NodeKind} {tag : Tag} {span : Span}
    {model started : Model} (hmodel : model.WellFormed) (hparent : parent < model.size)
    (h : readStart parent kind tag span model = .ok (id, started)) : started.WellFormed := by
  obtain ⟨⟨id', added⟩, hadd, h⟩ := Except.bind_eq_ok.1 h
  obtain ⟨read, hread, h⟩ := Except.bind_eq_ok.1 h
  obtain ⟨rfl, rfl⟩ := Prod.mk.inj (Except.ok.inj h)
  exact (hmodel.addChild hparent (Except.mapError_eq_ok.1 hadd)).readAttributes hread

/-- Reading a content keeps models well-formed. -/
theorem WellFormed.reads {parent : NodeId} {parentKind : NodeKind} {offset : Nat}
    {content : Content} {model after : Model} (hmodel : model.WellFormed)
    (hparent : parent < model.size) (h : Reads parent parentKind offset content model after) :
    after.WellFormed := by
  induction h with
  | nil model => exact hmodel
  | chars _ _ ih => exact ih hmodel hparent
  | comment _ ih => exact ih hmodel hparent
  | unknownEmpty _ _ ih => exact ih hmodel hparent
  | textEmpty _ htext hstart _ ih =>
    have hstarts := starts_of_readStart hstart
    have hstarted := hmodel.readStart hparent hstart
    exact ih (hstarted.putText (hstarts.kind_id.symm ▸ htext) _ _ _)
      (Nat.lt_of_lt_of_le hparent (hstarts.keeps_putText ..).size_le)
  | holderEmpty _ _ hstart _ ih =>
    have hstarts := starts_of_readStart hstart
    exact ih (hmodel.readStart hparent hstart) (Nat.lt_of_lt_of_le hparent hstarts.keeps.size_le)
  | unknown _ _ _ ih => exact ih hmodel hparent
  | text _ htext _ hstart _ _ ih =>
    have hstarts := starts_of_readStart hstart
    have hstarted := hmodel.readStart hparent hstart
    exact ih (hstarted.putText (hstarts.kind_id.symm ▸ htext) _ _ _)
      (Nat.lt_of_lt_of_le hparent (hstarts.keeps_putText ..).size_le)
  | holder _ _ _ hstart hinner _ ihinner ihnext =>
    have hstarts := starts_of_readStart hstart
    have hkeeps := hstarts.keeps.trans (keeps_of_reads hinner)
    -- The element just started is the parent of what is inside it.
    have hinside := ihinner (hmodel.readStart hparent hstart) hstarts.lt_size
    exact ihnext hinside (Nat.lt_of_lt_of_le hparent hkeeps.size_le)

/-! ## Whole models -/

/-- The root that is read is the only element without attributes from the document. -/
theorem slotted_of_readAttributes {offset : Nat} {attributes : List Attribute} {started : Model}
    (h : readAttributes root offset attributes empty = .ok started) :
    started.size = 1 ∧ (started.node root).slot = none ∧ started.Slotted := by
  obtain ⟨hsize, hnode⟩ := node_of_readAttributes h
  refine ⟨hsize, ?_, ?_⟩
  · obtain ⟨attributes, heq⟩ := hnode root
    rw [heq, node_empty]
    rfl
  · intro id
    obtain ⟨attributes, heq⟩ := hnode id
    rw [text?, heq, node_empty]
    rfl

/-- The texts of all elements that are read from a root element are those in their slots. -/
theorem slotted_of_readRoot {offset : Nat} {element : Markup.Root} {model : Model}
    (h : readRoot offset element = .ok model) : model.Slotted := by
  obtain ⟨-, started, hstarted, hreads⟩ := readRoot_eq_ok.1 h
  obtain ⟨-, -, hslotted⟩ := slotted_of_readAttributes hstarted
  cases element with
  | empty tag =>
    obtain rfl := hreads
    exact hslotted
  | element tag inner close => exact slotted_of_reads hreads.2 hslotted

/-- A model that is read from its root element is well-formed. -/
theorem wellFormed_of_readRoot {offset : Nat} {element : Markup.Root} {model : Model}
    (h : readRoot offset element = .ok model) : model.WellFormed := by
  obtain ⟨-, started, hstarted, hreads⟩ := readRoot_eq_ok.1 h
  have hwellFormed := wellFormed_empty.readAttributes hstarted
  cases element with
  | empty tag =>
    obtain rfl := hreads
    exact hwellFormed
  | element tag inner close => exact hwellFormed.reads hwellFormed.pos hreads.2

/-- Every model that is read from a document is well-formed. -/
theorem wellFormed_of_read {text : Text} {model : Model} (h : read text = .ok model) :
    model.WellFormed := by
  obtain ⟨document, rooted, -, hrooted, rfl⟩ := read_eq_ok h
  exact (wellFormed_of_readRoot hrooted).withDocument _

end Model

end Retrace
