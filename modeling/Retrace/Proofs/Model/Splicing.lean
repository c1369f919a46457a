import Retrace.Proofs.Model.Paths
import Retrace.Proofs.Model.RoundTrip

/-!
# An edited model is written in place

A model that was read from a document is edited by three kinds of calls: they give an element a
text, set an attribute, or add an element. A call may be refused, and then the model stays as it is.
Whatever calls are made, the model can be written, and what is written is the document with the
texts that differ from those that were read in their places. Attributes and new elements do not
show, a text that has been given back counts as unchanged, and nothing else in the document moves.

This rests on what a call cannot do: it takes no element away and changes neither its kind nor where
its text stands, and the elements that it adds stand nowhere in the document.

## Main definitions

* `Model.Call`, `Model.answerAll`: calls on a model and what they make of it;
* `Model.newTexts`: the texts that differ from those that were read;
* `Model.fieldPatches`: these texts, each with the bytes that it replaces;
* `Model.Continues`: what all models have in common that are reached by calls.

## Main results

* `Model.Continues.answer`, `Model.continues_answerAll`: a call, and so a run of calls, keeps it;
* `Model.write_of_answerAll`: what is written after any calls.
-/

namespace Retrace

namespace Model

open Markup

/-! ## Calls -/

/-- A call on a model. -/
inductive Call where
  /-- Give an element a text. -/
  | setText (id : NodeId) (text : Text)
  /-- Set an attribute of an element. -/
  | setAttribute (id : NodeId) (name value : Text)
  /-- Add an element of a kind to another one. -/
  | addChild (parent : NodeId) (kind : NodeKind)
  deriving DecidableEq, Repr

/-- What a call makes of a model; a call that is refused leaves it as it is. -/
def answer (model : Model) : Call → Model
  | .setText id text =>
    match model.setText id text with
    | .ok edited => edited
    | .error _ => model
  | .setAttribute id name value => model.setAttribute id name value
  | .addChild parent kind => model.request parent kind

/-- What several calls, one after the other, make of a model. -/
def answerAll (model : Model) (calls : List Call) : Model :=
  calls.foldl answer model

/-- The texts of the elements of an earlier model that a later one has changed. -/
def newTexts (model edited : Model) (id : NodeId) : Option Text :=
  if id < model.size ∧ edited.text? id ≠ model.text? id then edited.text? id else none

/-- What puts a text into the place of an element in the document: it replaces what stands between
the tags of the element or, for an element that is written as a single tag, the end of this tag. -/
def fieldPatch? (node : Node) (text : Text) : Option Patch :=
  node.slot.map fun slot =>
    ⟨slot.span, if slot.selfClosing then
      '>' :: encode text ++ (EndTag.mk node.kind.tag.toList []).text else encode text⟩

/-- The patches for all texts of an earlier model that a later one has changed. -/
def fieldPatches (model edited : Model) : List Patch :=
  (List.range model.size).filterMap fun id =>
    (model.newTexts edited id).bind (fieldPatch? (model.node id))

/-! ## What calls leave alone -/

/-- A later model has the elements of an earlier one where they were, and besides them only elements
that stand nowhere in the document. -/
structure Continues (model edited : Model) : Prop where
  /-- The elements are there, with the same kinds and slots. -/
  keeps : model.Keeps edited
  /-- The document is the same. -/
  document_eq : edited.document = model.document
  /-- New elements have no slot. -/
  slot_eq_none : ∀ id, model.size ≤ id → (edited.node id).slot = none
  /-- Exactly the elements whose kind carries a text have one. -/
  isSome_text : ∀ id, (edited.text? id).isSome = (edited.kind id).hasText

namespace Continues

variable {model edited : Model}

theorem refl (h : model.WellFormed) : model.Continues model where
  keeps := .refl model
  document_eq := rfl
  slot_eq_none id hle := by
    rw [node_of_size_le hle]
    rfl
  isSome_text := h.isSome_text

/-- A change of an element that leaves kind and slot alone continues the model. -/
theorem update (h : model.Continues edited) (id : NodeId) {change : Node → Node}
    (hkind : (change (edited.node id)).kind = edited.kind id)
    (hslot : (change (edited.node id)).slot = (edited.node id).slot)
    (htext : (change (edited.node id)).text.isSome = (edited.kind id).hasText) :
    model.Continues (edited.update id change) := by
  have hkinds (other : NodeId) : (edited.update id change).kind other = edited.kind other :=
    apply_node_update Node.kind hkind other
  have hslots := apply_node_update Node.slot hslot
  refine ⟨⟨?_, fun other hlt => ?_, fun other hlt => ?_⟩, h.document_eq, fun other hle => ?_,
    fun other => ?_⟩
  · rw [size_update]
    exact h.keeps.size_le
  · rw [hkinds, h.keeps.kind_eq other hlt]
  · rw [hslots, h.keeps.slot_eq other hlt]
  · rw [hslots, h.slot_eq_none other hle]
  · rw [hkinds, text?, node_update]
    split
    · rename_i hand
      rw [htext, hand.1]
    · exact h.isSome_text other

/-- An element that is added has no slot. -/
theorem insert (h : model.Continues edited) (parent : NodeId) (kind : NodeKind) :
    model.Continues (edited.insert parent kind) := by
  have hold {id : NodeId} (hlt : id < model.size) : id ≠ edited.size :=
    Nat.ne_of_lt (Nat.lt_of_lt_of_le hlt h.keeps.size_le)
  -- The new element comes behind those of the first model.
  refine ⟨⟨?_, fun id hlt => ?_, fun id hlt => ?_⟩, h.document_eq, fun id hle => ?_,
    isSome_text_insert h.isSome_text⟩
  · rw [size_insert]
    exact Nat.le_succ_of_le h.keeps.size_le
  · rw [kind_insert, if_neg (hold hlt), h.keeps.kind_eq id hlt]
  · rw [slot_insert, if_neg (hold hlt), h.keeps.slot_eq id hlt]
  · rw [slot_insert, h.slot_eq_none id hle, ite_self]

/-- Whatever call is made, the model is continued. -/
theorem answer (h : model.Continues edited) (call : Call) :
    model.Continues (edited.answer call) := by
  cases call with
  | setText id text =>
    rw [Model.answer]
    split
    · rename_i hset
      obtain ⟨htext, rfl⟩ := setText_eq_ok hset
      exact h.update id rfl rfl htext.symm
    · exact h
  | setAttribute id name value => exact h.update id rfl rfl (h.isSome_text id)
  | addChild parent kind =>
    rw [Model.answer, request]
    split
    · rename_i hadd
      obtain ⟨-, -, rfl⟩ := addChild_eq_ok hadd
      exact h.insert parent kind
    · exact h

/-- The texts that are not those in the slots are the new ones. -/
theorem changes_eq (h : model.Continues edited) (hmodel : model.WellFormed)
    (hslotted : model.Slotted) : edited.changes = model.newTexts edited := by
  funext id
  rw [changes, Node.change?, newTexts]
  by_cases hlt : id < model.size
  · have hread : (model.node id).slot.map Slot.asRead = model.text? id := hslotted id
    have hsome : (edited.text? id).isSome = (model.text? id).isSome := by
      rw [h.isSome_text, h.keeps.kind_eq id hlt, hmodel.isSome_text]
    rw [h.keeps.slot_eq id hlt, ← hread, ← text?]
    rw [← hread] at hsome
    cases hslot : (model.node id).slot with
    | none =>
      rw [hslot, Option.map_none, Option.isSome_none, Option.isSome_eq_false_iff,
        Option.isNone_iff_eq_none] at hsome
      simp [hsome]
    | some slot =>
      rw [hslot, Option.map_some, Option.isSome_some] at hsome
      obtain ⟨text, htext⟩ := Option.isSome_iff_exists.1 hsome
      -- A text that has been given back is neither a change nor new.
      by_cases hsame : text = slot.asRead <;> simp [htext, hlt, hsame]
  · rw [if_neg fun hand => hlt hand.1, h.slot_eq_none id (Nat.le_of_not_lt hlt)]

/-- New elements have no patches. -/
theorem patchesIn_size (h : model.Continues edited) :
    edited.patchesIn root edited.size = edited.patchesIn root model.size := by
  have hnew : edited.patchesIn model.size edited.size = [] := by
    rw [patchesIn, List.filterMap_eq_nil_iff]
    intro id hid
    exact Node.patch?_of_slot (h.slot_eq_none id (List.mem_range'_1.1 hid).1)
  have hroot : root ≤ model.size := Nat.zero_le _
  rw [← patchesIn_append edited hroot h.keeps.size_le, hnew, List.append_nil]

/-- The patches of all elements are those for the new texts. -/
theorem patchesIn_eq (h : model.Continues edited) (hmodel : model.WellFormed)
    (hslotted : model.Slotted) :
    edited.patchesIn root edited.size = model.fieldPatches edited := by
  rw [h.patchesIn_size, patchesIn, fieldPatches, List.range_eq_range']
  refine List.filterMap_congr (l := List.range' 0 model.size) fun id hid => ?_
  have hlt : id < model.size := by simpa using hid
  rw [← h.changes_eq hmodel hslotted, changes]
  cases hchange : (edited.node id).change? with
  | none => rw [Node.patch?_of_change?_eq_none hchange, Option.bind_none]
  | some text =>
    have hkind : (edited.node id).kind = (model.node id).kind := h.keeps.kind_eq id hlt
    have hsome : (edited.node id).slot.isSome = true := by
      cases hslot : (edited.node id).slot with
      | none => simp [Node.change?, hslot] at hchange
      | some slot => rfl
    obtain ⟨slot, hslot⟩ := Option.isSome_iff_exists.1 hsome
    rw [Node.patch?_of_change?_eq_some hslot hchange, Option.bind_some, fieldPatch?,
      ← h.keeps.slot_eq id hlt, hslot, Option.map_some, hkind]

/-- A model that continues another one does so after any calls. -/
theorem answerAll (h : model.Continues edited) (calls : List Call) :
    model.Continues (edited.answerAll calls) := by
  induction calls generalizing edited with
  | nil => exact h
  | cons call later ih => exact ih (h.answer call)

end Continues

/-- Whatever calls are made, a well-formed model is continued. -/
theorem continues_answerAll {model : Model} (h : model.WellFormed) (calls : List Call) :
    model.Continues (model.answerAll calls) :=
  Continues.answerAll (.refl h) calls

/-! ## Writing -/

/-- If no text is new, a document stays as it is. -/
theorem newTexts_eq_none {model edited : Model}
    (h : ∀ id < model.size, edited.text? id = model.text? id) :
    model.newTexts edited = fun _ => none := by
  funext id
  rw [newTexts, if_neg]
  rintro ⟨hlt, hne⟩
  exact hne (h id hlt)

/-- Whatever calls are made on a model that was read from a document, it can be written. What is
written is the document, as it was parsed, with the new texts in the elements that have them, or, in
bytes, what comes about when the patches for the new texts are put in their places and everything
between them is kept. If no text is new, it is the document itself. -/
theorem write_of_answerAll {text : Text} {model : Model} (hread : read text = .ok model)
    (calls : List Call) :
    ∃ document written, Document.read text = .ok document ∧ document.text = text ∧
      (model.answerAll calls).write = .ok written ∧
      written = { document with
        root := document.root.revise (model.newTexts (model.answerAll calls)) }.text ∧
      Patch.Turns (model.fieldPatches (model.answerAll calls)) 0 text written ∧
      ((∀ id < model.size, (model.answerAll calls).text? id = model.text? id) →
        written = text) := by
  have hmodel := wellFormed_of_read hread
  have hslotted := slotted_of_read hread
  have hcontinues := continues_answerAll hmodel calls
  generalize model.answerAll calls = edited at hcontinues
  obtain ⟨document, hdocument, hturns⟩ := turns_of_read hread hcontinues.keeps
  have htext := Document.text_of_read hdocument
  rw [← hcontinues.patchesIn_size, hcontinues.changes_eq hmodel hslotted] at hturns
  refine ⟨document, _, hdocument, htext, ?_, rfl, ?_, fun hsame => ?_⟩
  · have hsource : model.document = some text := by
      obtain ⟨_, _, -, -, rfl⟩ := read_eq_ok hread
      rfl
    exact write_eq_ok (hcontinues.document_eq.trans hsource) hturns
  · rwa [hcontinues.patchesIn_eq hmodel hslotted] at hturns
  · rw [newTexts_eq_none hsame, Root.revise_none, ← htext]

/-- A text that is given back, a new one, an attribute, a new element, and a text that is
refused. -/
def mixedCalls : List Call :=
  [.setText 1 "c".toList, .setText 2 "x<".toList, .setText 1 "a<b".toList,
    .setAttribute 0 "id".toList "n".toList, .addChild 0 .template, .setText 0 "no".toList]

/-- Of these calls only one shows in the document, where it makes two tags of a single one. -/
theorem write_of_answerAll_mixedCalls :
    read sparseText = .ok sparse ∧ ∃ written, (sparse.answerAll mixedCalls).write = .ok written ∧
      Patch.Turns [⟨⟨50, 52⟩, ">x&lt;</system>".toList⟩] 0 sparseText written ∧
      (sparse.answerAll mixedCalls).size = sparse.size + 1 := by
  have hread : read sparseText = .ok sparse := by
    rw [← Except.toOption_eq_some]
    decide +kernel
  have hpatches : sparse.fieldPatches (sparse.answerAll mixedCalls) =
      [⟨⟨50, 52⟩, ">x&lt;</system>".toList⟩] := by
    decide +kernel
  obtain ⟨document, written, -, -, hwrite, -, hturns, -⟩ := write_of_answerAll hread mixedCalls
  exact ⟨hread, written, hwrite, hpatches ▸ hturns, by decide +kernel⟩

/-- What is written then. -/
example : (sparse.answerAll mixedCalls).write.toOption =
    some "<nta><declaration>a&lt;b</declaration><x/><system >x&lt;</system></nta>".toList := by
  decide +kernel

end Model

end Retrace
