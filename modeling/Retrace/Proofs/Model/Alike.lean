import Mathlib.Logic.Function.Basic
import Retrace.Proofs.Model.Revise

/-!
# Reading revised documents

A revised content stands at other offsets than the one that was read and holds other texts, but it
is read into the same tree. Two models are `Model.Alike` when they differ in slots and in the texts
that were changed only; every step of reading a content keeps models alike when the same step is
taken on the revised content.

## Main definitions

* `Node.bare`: an element without its slot;
* `Node.retext`: an element with another text, if it has one at all;
* `Model.Alike`: a model differs from another one in changed texts only.

## Main results

* `Model.Alike.readStart`: the start of an element keeps models alike;
* `Model.Alike.reads`, `Model.alike_of_readRoot_at`: reading a revised content, or a revised root
  element, gives a model alike to the one read before;
* `Model.Alike.detach_eq`: models alike to the same one are the same tree.
-/

namespace Retrace

open Markup

namespace Node

/-- The element without its slot. -/
def bare (node : Node) : Node :=
  { node with slot := none }

/-- The element without its slot, and with another text, if there is one and the element can have
one. -/
def retext (node : Node) (change : Option Text) : Node :=
  { node.bare with text := node.text.map change.getD }

end Node

namespace Model

/-- A model is another one with changed texts, and with slots of its own. -/
structure Alike (change : NodeId → Option Text) (model revised : Model) : Prop where
  /-- There are as many elements. -/
  size_eq : revised.size = model.size
  /-- Every element has its new text, if there is one, and is the same otherwise. -/
  node_eq : ∀ id, (revised.node id).bare = (model.node id).retext (change id)

namespace Alike

variable {change : NodeId → Option Text} {model revised : Model}

theorem kind_eq (h : Alike change model revised) (id : NodeId) :
    revised.kind id = model.kind id := by
  have hnode := congrArg Node.kind (h.node_eq id)
  exact hnode

theorem children_eq (h : Alike change model revised) (id : NodeId) :
    (revised.node id).children = (model.node id).children := by
  have hnode := congrArg Node.children (h.node_eq id)
  exact hnode

/-- Models that are alike to the same model are the same tree. -/
theorem detach_eq {other : Model} (h : Alike change model revised)
    (h' : Alike change model other) : revised.detach = other.detach := by
  have hnode (model : Model) (id : NodeId) (hid : id < model.nodes.size) :
      model.nodes[id] = model.node id := by
    simp [node, hid]
  have hsize : revised.nodes.size = other.nodes.size := h.size_eq.trans h'.size_eq.symm
  unfold detach
  congr 1
  -- Both trees have the elements of the one model, each with the same text.
  apply Array.ext
  · simpa using hsize
  · intro id hid hid'
    rw [Array.size_map] at hid hid'
    rw [Array.getElem_map, Array.getElem_map, hnode revised id hid, hnode other id hid']
    exact (h.node_eq id).trans (h'.node_eq id).symm

/-- What is changed about one element keeps models alike if it keeps this element alike. -/
theorem update {change' : NodeId → Option Text} (h : Alike change model revised) {id : NodeId}
    (hlt : id < model.size) (hchange : ∀ other, other ≠ id → change' other = change other)
    {edit edit' : Node → Node}
    (hnode : (edit' (revised.node id)).bare = (edit (model.node id)).retext (change' id)) :
    Alike change' (model.update id edit) (revised.update id edit') where
  size_eq := by
    rw [size_update, size_update]
    exact h.size_eq
  node_eq := by
    intro other
    by_cases hid : id = other
    · subst hid
      have hlt' : id < revised.size := by rwa [h.size_eq]
      rw [node_update, node_update, if_pos ⟨rfl, hlt'⟩, if_pos ⟨rfl, hlt⟩]
      exact hnode
    · rw [node_update_of_ne _ hid, node_update_of_ne _ hid,
        hchange other fun heq => hid heq.symm]
      exact h.node_eq other

/-- Attributes are the same in both models, so setting one keeps them alike. -/
theorem setAttribute (h : Alike change model revised) {id : NodeId} (hlt : id < model.size)
    (name value : Text) :
    Alike change (model.setAttribute id name value) (revised.setAttribute id name value) := by
  have hattributes := congrArg Node.attributes (h.node_eq id)
  change (revised.node id).attributes = (model.node id).attributes at hattributes
  refine h.update hlt (fun _ _ => rfl) ?_
  rw [Node.setAttribute, Node.setAttribute, hattributes]
  exact congrArg (fun node : Node => { node with
    attributes := Node.putAttribute name value (model.node id).attributes }) (h.node_eq id)

/-- A new element is the same in both models as long as its text is not changed. -/
theorem insert (h : Alike change model revised) (parent : NodeId) (kind : NodeKind) :
    Alike (Function.update change model.size none) (model.insert parent kind)
      (revised.insert parent kind) where
  size_eq := by
    rw [size_insert, size_insert, h.size_eq]
  node_eq := by
    intro other
    rw [node_insert, node_insert, h.size_eq]
    by_cases hnew : other = model.size
    · rw [if_pos hnew, if_pos hnew, hnew, Function.update_self, Node.retext, Node.ofKind]
      -- A new element begins with an empty text or with none, in either model.
      cases kind.hasText <;> rfl
    · rw [if_neg hnew, if_neg hnew, Function.update_of_ne hnew]
      split
      · exact congrArg (fun node : Node => { node with
          children := node.children ++ [model.size] }) (h.node_eq other)
      · exact h.node_eq other

/-- The text of an element that has none cannot be changed. -/
theorem of_update {id : NodeId} (h : Alike (Function.update change id none) model revised)
    (htext : model.text? id = none) : Alike change model revised where
  size_eq := h.size_eq
  node_eq := by
    intro other
    have hnode := h.node_eq other
    by_cases hid : other = id
    · subst hid
      have hnone : (model.node other).text = none := htext
      rw [hnode, Node.retext, Node.retext, hnone]
      rfl
    · rwa [Function.update_of_ne hid] at hnode

/-- The text that is put into an element is the old one in the one model and the new one, if there
is one, in the other. -/
theorem putText {id : NodeId} (h : Alike (Function.update change id none) model revised)
    (hlt : id < model.size) {span span' : Span} {selfClosing selfClosing' : Bool}
    {text new : Text} (hnew : (change id).getD text = new) :
    Alike change (model.putText id span selfClosing text)
      (revised.putText id span' selfClosing' new) := by
  refine h.update hlt (fun other hne => (Function.update_of_ne hne ..).symm) ?_
  have hnode := h.node_eq id
  rw [Node.retext] at hnode ⊢
  rw [← hnew]
  exact congrArg (fun node : Node => { node with text := some ((change id).getD text) }) hnode

end Alike

/-! ## Texts -/

/-- A raw text without a fault is read in the same way wherever it stands. -/
theorem readRaw_of_readRaw {offset : Nat} {raw text : Text} (h : readRaw offset raw = .ok text)
    (offset' : Nat) : readRaw offset' raw = .ok text :=
  Except.mapError_eq_ok.2 (decode_of_decode (Except.mapError_eq_ok.1 h) offset')

theorem readText_of_readText {kind : NodeKind} {offset : Nat} {content : Content} {text : Text}
    (h : readText kind offset content = .ok text) (offset' : Nat) :
    readText kind offset' content = .ok text := by
  induction content generalizing offset offset' text with
  | nil => exact h
  | chars raw next ih =>
    unfold readText at h ⊢
    split at h
    · cases h
    · rename_i piece hpiece
      obtain ⟨later, hlater, rfl⟩ := Except.map_eq_ok.1 h
      rw [readRaw_of_readRaw hpiece offset']
      exact Except.map_eq_ok.2 ⟨later, ih hlater _, rfl⟩
  | comment body next ih => exact ih h _
  | empty tag next ih => cases h
  | element tag inner close next _ ih => cases h

/-- A text that was put into a document is read again. -/
theorem readText_ofText (kind : NodeKind) (offset : Nat) (text : Text) :
    readText kind offset (Content.ofText text) = .ok text := by
  cases text with
  | nil => rfl
  | cons c rest =>
    have hread : readRaw offset (encode (c :: rest)) = .ok (c :: rest) :=
      Except.mapError_eq_ok.2 (decode_encode offset (c :: rest))
    rw [Content.ofText, readText, hread]
    exact congrArg Except.ok (List.append_nil _)

/-! ## Reading in step -/

namespace Alike

variable {change : NodeId → Option Text} {model revised : Model}

/-- Attributes are read in the same way from both documents. -/
theorem readAttributes (h : Alike change model revised) {id : NodeId} (hlt : id < model.size)
    {offset : Nat} {attributes : List Attribute} {edited : Model}
    (hread : readAttributes id offset attributes model = .ok edited) :
    ∃ edited', (∀ offset', readAttributes id offset' attributes revised = .ok edited') ∧
      Alike change edited edited' := by
  induction attributes generalizing offset model revised with
  | nil =>
    obtain rfl := Except.ok.inj hread
    exact ⟨revised, fun _ => rfl, h⟩
  | cons first later ih =>
    unfold Model.readAttributes at hread
    split at hread
    · cases hread
    · rename_i value hvalue
      have hlt' : id < (model.setAttribute id first.name value).size := by
        rw [Model.setAttribute, size_update]
        exact hlt
      obtain ⟨edited', hlater, halike⟩ := ih (h.setAttribute hlt first.name value) hlt' hread
      refine ⟨edited', ?_, halike⟩
      intro offset'
      rw [Model.readAttributes, readRaw_of_readRaw hvalue]
      exact hlater _

/-- Whether an element may be added does not depend on texts. -/
theorem refusal?_eq (h : Alike change model revised) (parent : NodeId) (kind : NodeKind) :
    revised.refusal? parent kind = model.refusal? parent kind := by
  have hchildren : revised.childrenOfKind parent kind = model.childrenOfKind parent kind := by
    simp only [childrenOfKind, h.children_eq, h.kind_eq]
  rw [refusal?, refusal?, hchildren, h.kind_eq]

/-- The start of an element adds the same element to both models. Its text is left out of the
account until it is read. -/
theorem readStart (h : Alike change model revised) {parent id : NodeId} {kind : NodeKind}
    {tag : Tag} {span : Span} {started : Model}
    (hstart : readStart parent kind tag span model = .ok (id, started)) :
    ∃ started', (∀ span', Model.readStart parent kind tag span' revised = .ok (id, started')) ∧
      Alike (Function.update change id none) started started' := by
  obtain ⟨⟨id', added⟩, hadd, hrest⟩ := Except.bind_eq_ok.1 hstart
  obtain ⟨edited, hattributes, hpair⟩ := Except.bind_eq_ok.1 hrest
  obtain ⟨rfl, rfl⟩ := Prod.mk.inj (Except.ok.inj hpair)
  obtain ⟨hrefusal, rfl, rfl⟩ := addChild_eq_ok (Except.mapError_eq_ok.1 hadd)
  have hlt : model.size < (model.insert parent kind).size := by
    rw [size_insert]
    exact Nat.lt_succ_self _
  obtain ⟨started', hread, halike⟩ :=
    (h.insert parent kind).readAttributes hlt hattributes
  have hadd' : revised.addChild parent kind = .ok (model.size, revised.insert parent kind) := by
    rw [addChild, h.refusal?_eq, hrefusal]
    dsimp only
    rw [h.size_eq]
  refine ⟨started', ?_, halike⟩
  intro span'
  refine Except.bind_eq_ok.2 ⟨_, Except.mapError_eq_ok.2 hadd', ?_⟩
  exact Except.bind_eq_ok.2 ⟨started', hread _, rfl⟩

/-- Reading the revised content in step with the content itself keeps models alike. -/
theorem reads {parent : NodeId} {parentKind : NodeKind} {offset : Nat} {content : Content}
    {after : Model} (hreads : Reads parent parentKind offset content model after)
    (h : Alike change model revised) (offset' : Nat) :
    ∃ after', Reads parent parentKind offset' (content.revise change model.size) revised after' ∧
      Alike change after after' := by
  induction hreads generalizing revised offset' with
  | nil model => exact ⟨revised, .nil revised, h⟩
  | chars hblank _ ih =>
    obtain ⟨after', hafter, halike⟩ := ih h _
    exact ⟨after', .chars hblank hafter, halike⟩
  | comment _ ih =>
    obtain ⟨after', hafter, halike⟩ := ih h _
    exact ⟨after', .comment hafter, halike⟩
  | unknownEmpty hkind _ ih =>
    obtain ⟨after', hafter, halike⟩ := ih h _
    refine ⟨after', ?_, halike⟩
    simp only [Content.revise, hkind]
    exact .unknownEmpty hkind hafter
  | @textEmpty parent id parentKind kind offset tag next model started after hkind htext hstart
      hnext ih =>
    have hstarts := starts_of_readStart hstart
    obtain rfl := hstarts.id_eq
    rw [size_putText, hstarts.size_eq] at ih
    simp only [Content.revise, hkind, htext]
    obtain ⟨started', hstart', hstarted⟩ := h.readStart hstart
    cases hchange : change model.size with
    | none =>
      -- The tag stays as it is.
      have hnew : (change model.size).getD [] = [] := by rw [hchange, Option.getD_none]
      obtain ⟨after', hafter, halike⟩ := ih (hstarted.putText hstarts.lt_size hnew) _
      exact ⟨after', .textEmpty hkind htext (hstart' _) hafter, halike⟩
    | some text =>
      -- The tag becomes two tags with the new text between them.
      have hnew : (change model.size).getD [] = text := by rw [hchange, Option.getD_some]
      obtain ⟨after', hafter, halike⟩ := ih (hstarted.putText hstarts.lt_size hnew) _
      exact ⟨after', .text hkind htext rfl (hstart' _) (readText_ofText ..) hafter, halike⟩
  | @holderEmpty parent id parentKind kind offset tag next model started after hkind htext hstart
      hnext ih =>
    have hstarts := starts_of_readStart hstart
    obtain ⟨started', hstart', hstarted⟩ := h.readStart hstart
    rw [hstarts.size_eq] at ih
    obtain ⟨after', hafter, halike⟩ := ih (hstarted.of_update (hstarts.text_id htext)) _
    refine ⟨after', ?_, halike⟩
    simp only [Content.revise, hkind, htext]
    exact .holderEmpty hkind htext (hstart' _) hafter
  | unknown hkind hclose _ ih =>
    obtain ⟨after', hafter, halike⟩ := ih h _
    refine ⟨after', ?_, halike⟩
    simp only [Content.revise, hkind]
    exact .unknown hkind hclose hafter
  | @text parent id parentKind kind offset tag close inner next text model started after hkind htext
      hclose hstart hread hnext ih =>
    have hstarts := starts_of_readStart hstart
    obtain rfl := hstarts.id_eq
    rw [size_putText, hstarts.size_eq] at ih
    -- Either text is read as it was put there: the old one as before, the new one by decoding it.
    have hread' (offset : Nat) : readText kind offset
        ((change model.size).elim inner Content.ofText) = .ok ((change model.size).getD text) := by
      cases change model.size with
      | none => exact readText_of_readText hread offset
      | some new => exact readText_ofText kind offset new
    obtain ⟨started', hstart', hstarted⟩ := h.readStart hstart
    obtain ⟨after', hafter, halike⟩ := ih (hstarted.putText hstarts.lt_size rfl) _
    refine ⟨after', ?_, halike⟩
    simp only [Content.revise, hkind, htext, if_pos]
    exact .text hkind htext hclose (hstart' _) (hread' _) hafter
  | @holder parent id parentKind kind offset tag close inner next model started inside after hkind
      htext hclose hstart hinner hnext ihinner ihnext =>
    have hstarts := starts_of_readStart hstart
    have hsize := size_of_reads hinner
    obtain ⟨started', hstart', hstarted⟩ := h.readStart hstart
    rw [hstarts.size_eq] at ihinner hsize
    obtain ⟨inside', hinside, hinner'⟩ :=
      ihinner (hstarted.of_update (hstarts.text_id htext)) _
    rw [hsize] at ihnext
    obtain ⟨after', hafter, halike⟩ := ihnext hinner' _
    refine ⟨after', ?_, halike⟩
    simp only [Content.revise, hkind, htext, Bool.false_eq_true, if_false]
    exact .holder hkind htext hclose (hstart' _) hinside hafter

end Alike

/-- Without changes the empty model is alike to itself. -/
theorem alike_empty (change : NodeId → Option Text) : Alike change empty empty where
  size_eq := rfl
  node_eq id := by
    rw [node_empty]
    rfl

/-- From the revised root element, wherever it stands, a model is read that is alike to the one
before. -/
theorem alike_of_readRoot_at {offset : Nat} {element : Markup.Root} {model : Model}
    (h : readRoot offset element = .ok model) (change : NodeId → Option Text) (offset' : Nat) :
    ∃ again, readRoot offset' (element.revise change) = .ok again ∧ Alike change model again := by
  obtain ⟨hkind, started, hstarted, hreads⟩ := readRoot_eq_ok.1 h
  obtain ⟨hsize, -⟩ := slotted_of_readAttributes hstarted
  have hlt : root < empty.size := Nat.one_pos
  obtain ⟨started', hstarted', halike⟩ := (alike_empty change).readAttributes hlt hstarted
  cases element with
  | empty tag =>
    obtain rfl := hreads
    exact ⟨started', readRoot_eq_ok.2 ⟨hkind, started', hstarted' _, rfl⟩, halike⟩
  | element tag inner close =>
    obtain ⟨hclose, hinner⟩ := hreads
    obtain ⟨again, hagain, halike⟩ := halike.reads hinner (offset' + Text.size tag.startText)
    -- The root is the only element before the content is read.
    rw [hsize] at hagain
    exact ⟨again, readRoot_eq_ok.2 ⟨hkind, started', hstarted' _, hclose, hagain⟩, halike⟩

theorem alike_of_readRoot {offset : Nat} {element : Markup.Root} {model : Model}
    (h : readRoot offset element = .ok model) (change : NodeId → Option Text) :
    ∃ again, readRoot offset (element.revise change) = .ok again ∧ Alike change model again :=
  alike_of_readRoot_at h change offset

end Model

end Retrace
