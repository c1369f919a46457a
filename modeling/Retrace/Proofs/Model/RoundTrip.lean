import Retrace.Proofs.Model.Alike

/-!
# Writing an edited model and reading it again

A model that was read from a document is edited by giving new texts to some of its elements. Writing
it then brings the new texts into the document, and reading what was written gives the edited model
again: no text is lost, none ends up in another element, and the document stays one that can be
read.

## Main definitions

* `Model.Retexts`: a model differs from another one in the texts of elements that have one.

## Main results

* `Model.exists_of_setTexts`: texts of elements that carry one can be set;
* `Model.alike_of_retexts`: the edited model is the one that was read, with changed texts;
* `Model.read_write`: the edited model is read back from the document that is written.
-/

namespace Retrace

namespace Model

open Markup

/-! ## Editing texts -/

/-- A model has other texts than another one, but is the same in all other ways. -/
structure Retexts (model edited : Model) : Prop where
  /-- The document is the same. -/
  document_eq : edited.document = model.document
  /-- There are as many elements. -/
  size_eq : edited.size = model.size
  /-- Elements with a text have one, and elements without a text have none. -/
  node_eq : ∀ id, ∃ text, edited.node id = { model.node id with text } ∧
    text.isSome = (model.text? id).isSome

namespace Retexts

theorem refl (model : Model) : model.Retexts model :=
  ⟨rfl, rfl, fun id => ⟨(model.node id).text, rfl, rfl⟩⟩

theorem trans {first second third : Model} (h : first.Retexts second)
    (h' : second.Retexts third) : first.Retexts third where
  document_eq := h'.document_eq.trans h.document_eq
  size_eq := h'.size_eq.trans h.size_eq
  node_eq := by
    intro id
    obtain ⟨text, hsecond, hsome⟩ := h.node_eq id
    obtain ⟨text', hthird, hsome'⟩ := h'.node_eq id
    refine ⟨text', by rw [hthird, hsecond], hsome'.trans ?_⟩
    rw [text?, hsecond]
    exact hsome

/-- Editing texts keeps kinds and slots. -/
theorem keeps {model edited : Model} (h : model.Retexts edited) : model.Keeps edited where
  size_le := Nat.le_of_eq h.size_eq.symm
  kind_eq id _ := by
    obtain ⟨text, heq, -⟩ := h.node_eq id
    rw [Model.kind, heq]
    rfl
  slot_eq id _ := by
    obtain ⟨text, heq, -⟩ := h.node_eq id
    rw [heq]

/-- Nothing but the texts can make a difference. -/
theorem eq_of_text?_eq {model edited edited' : Model} (h : model.Retexts edited)
    (h' : model.Retexts edited') (htext : ∀ id, edited'.text? id = edited.text? id) :
    edited' = edited := by
  have hnode (id : NodeId) : edited'.node id = edited.node id := by
    obtain ⟨text, heq, -⟩ := h.node_eq id
    obtain ⟨text', heq', -⟩ := h'.node_eq id
    have hsame := htext id
    rw [text?, text?, heq, heq'] at hsame
    obtain rfl : text' = text := hsame
    rw [heq, heq']
  have hsize : edited'.nodes.size = edited.nodes.size := h'.size_eq.trans h.size_eq.symm
  have hnodes : edited'.nodes = edited.nodes := by
    apply Array.ext hsize
    intro id hid hid'
    have hsame := hnode id
    simpa [node, hid, hid'] using hsame
  cases edited
  cases edited'
  rw [Model.mk.injEq]
  exact ⟨hnodes, h'.document_eq.trans h.document_eq.symm⟩

end Retexts

/-- Setting a text changes nothing but a text. -/
theorem retexts_of_setText {model edited : Model} (hmodel : model.WellFormed) {id : NodeId}
    {text : Text} (h : model.setText id text = .ok edited) : model.Retexts edited := by
  obtain ⟨htext, rfl⟩ := setText_eq_ok h
  refine ⟨rfl, size_update .., ?_⟩
  intro other
  rw [node_update]
  split
  · rename_i hand
    refine ⟨some text, by rw [hand.1], ?_⟩
    rw [hmodel.isSome_text, ← hand.1, htext]
    rfl
  · exact ⟨(model.node other).text, rfl, rfl⟩

/-- The texts of elements that carry one can be set, in any order and any number of times. -/
theorem exists_of_setTexts {model : Model} (hmodel : model.WellFormed)
    {edits : List (NodeId × Text)}
    (hedits : ∀ edit ∈ edits, (model.kind edit.1).hasText = true) :
    ∃ edited, edits.foldlM (fun model edit => model.setText edit.1 edit.2) model = .ok edited ∧
      model.Retexts edited := by
  induction edits generalizing model with
  | nil => exact ⟨model, rfl, .refl model⟩
  | cons first later ih =>
    obtain ⟨hfirst, hlater⟩ := List.forall_mem_cons.1 hedits
    obtain ⟨next, hnext⟩ : ∃ next, model.setText first.1 first.2 = .ok next := by
      rw [setText, if_pos hfirst]
      exact ⟨_, rfl⟩
    have hretexts := retexts_of_setText hmodel hnext
    -- An edit changes no kind, so the elements of the later edits still carry texts.
    have hkinds (edit : NodeId × Text) (hedit : edit ∈ later) :
        (next.kind edit.1).hasText = true := by
      obtain ⟨text, heq, -⟩ := hretexts.node_eq edit.1
      rw [Model.kind, heq]
      exact hlater edit hedit
    obtain ⟨edited, hedited, hrest⟩ := ih (hmodel.setText hnext) hkinds
    refine ⟨edited, ?_, hretexts.trans hrest⟩
    rw [List.foldlM_cons]
    exact Except.bind_eq_ok.2 ⟨next, hnext, hedited⟩

/-- An element with another text is the element that was read with the text that is not the one in
its slot. -/
theorem bare_eq_retext {node : Node} {text : Option Text}
    (hslot : node.slot.map Slot.asRead = node.text) (hsome : text.isSome = node.text.isSome) :
    Node.bare { node with text } = node.retext (Node.change? { node with text }) := by
  obtain ⟨kind, parent, children, attributes, old, slot⟩ := node
  cases slot with
  | none =>
    obtain rfl : none = old := hslot
    obtain rfl := Option.isNone_iff_eq_none.1 (Option.isSome_eq_false_iff.1 hsome)
    rfl
  | some slot =>
    obtain rfl : some slot.asRead = old := hslot
    obtain ⟨new, rfl⟩ := Option.isSome_iff_exists.1 hsome
    rw [Node.change?]
    dsimp only
    -- Giving back the text that was read is no change.
    by_cases hsame : new = slot.asRead
    · rw [if_pos hsame, hsame]
      rfl
    · rw [if_neg hsame]
      rfl

/-- An edited model is the model that was read with the texts that are not those in the slots. -/
theorem alike_of_retexts {model edited : Model} (h : model.Retexts edited)
    (hslotted : model.Slotted) : Alike edited.changes model edited where
  size_eq := h.size_eq
  node_eq := by
    intro id
    obtain ⟨text, heq, hsome⟩ := h.node_eq id
    rw [changes, heq]
    exact bare_eq_retext (hslotted id) hsome

/-! ## Writing -/

/-- The patches of all elements, before they are sorted. -/
theorem filterMap_patch? (model : Model) :
    model.nodes.toList.filterMap Node.patch? = model.patchesIn root model.size := by
  have hnodes : model.nodes.toList = (List.range' 0 model.size).map model.node := by
    apply List.ext_getElem
    · simp [size]
    · intro id hid hid'
      simp [node, size] at hid hid' ⊢
      simp [hid]
  rw [hnodes, List.filterMap_map]
  rfl

/-- Patches that turn the document of a model into another text are all that is done to write the
model. -/
theorem write_eq_ok {model : Model} {document written : Text}
    (hdocument : model.document = some document)
    (h : Patch.Turns (model.patchesIn root model.size) 0 document written) :
    model.write = .ok written := by
  rw [write, hdocument]
  show Patch.applyFrom 0 model.patches document = .ok written
  rw [patches, filterMap_patch?, Patch.mergeSort_of_turns h]
  exact Patch.applyFrom_of_turns h

/-- Where the texts are those in the slots, nothing has been changed. -/
theorem Slotted.changes_eq_none {model : Model} (h : model.Slotted) :
    model.changes = fun _ => none := by
  funext id
  have hslot : (model.node id).slot.map Slot.asRead = (model.node id).text := h id
  rw [changes, Node.change?]
  cases hread : (model.node id).slot with
  | none => rfl
  | some slot =>
    rw [← hslot, hread]
    exact if_pos rfl

/-- The texts of a model that was read are those in its slots. -/
theorem slotted_of_read {text : Text} {model : Model} (h : read text = .ok model) :
    model.Slotted := by
  obtain ⟨document, rooted, -, hroot, rfl⟩ := read_eq_ok h
  have hslotted := slotted_of_readRoot hroot
  exact hslotted

/-- A model that was read is written as the document it was read from. -/
theorem write_of_read {text : Text} {model : Model} (h : read text = .ok model) :
    model.write = .ok text := by
  have hslotted := slotted_of_read h
  obtain ⟨document, rooted, -, hroot, rfl⟩ := read_eq_ok h
  refine write_eq_ok rfl ?_
  rw [patchesIn, List.filterMap_eq_nil_iff.2]
  · exact .keep text
  · intro id _
    exact Node.patch?_of_change?_eq_none (congrFun hslotted.changes_eq_none id)

/-- Whatever texts are given to the elements of a model that was read from a document, the model can
be written, what is written can be read, and reading it gives the same tree with the same kinds,
attributes and texts. -/
theorem read_write {text : Text} {model : Model} (hread : read text = .ok model)
    (edits : List (NodeId × Text))
    (hedits : ∀ edit ∈ edits, (model.kind edit.1).hasText = true) :
    ∃ edited written again,
      edits.foldlM (fun model edit => model.setText edit.1 edit.2) model = .ok edited ∧
      edited.write = .ok written ∧ read written = .ok again ∧ again.detach = edited.detach := by
  obtain ⟨edited, hedited, hretexts⟩ := exists_of_setTexts (wellFormed_of_read hread) hedits
  obtain ⟨document, rooted, hdocument, hroot, rfl⟩ := read_eq_ok hread
  -- The new texts, put into the markup that was read.
  let revised := { document with root := document.root.revise edited.changes }
  have hrevised : Document.read revised.text = .ok revised :=
    Document.read_withRoot hdocument
      ((Document.wellFormed_of_read hdocument).revise edited.changes)
  -- The document is no part of the tree, so what holds of the model holds of what was read.
  have hkeeps : rooted.Keeps edited :=
    ⟨hretexts.keeps.size_le, hretexts.keeps.kind_eq, hretexts.keeps.slot_eq⟩
  have hslotted : Slotted { rooted with document := some text } := by
    have hrooted := slotted_of_readRoot hroot
    exact hrooted
  have hedits := alike_of_retexts hretexts hslotted
  have halike : Alike edited.changes rooted edited := ⟨hedits.size_eq, hedits.node_eq⟩
  have hturns : Patch.Turns (edited.patchesIn root edited.size) 0 text revised.text := by
    have hturns := turns_of_readRoot hroot hkeeps
    rw [← Nat.zero_add (Text.size document.prolog)] at hturns
    rw [hretexts.size_eq, ← Document.text_of_read hdocument]
    have hall := (hturns.append (.keep document.epilog)).prepend
    rw [List.append_nil] at hall
    exact hall
  obtain ⟨again, hagain, halike'⟩ := alike_of_readRoot hroot edited.changes
  refine ⟨edited, revised.text, { again with document := some revised.text }, hedited,
    write_eq_ok hretexts.document_eq hturns, ?_, halike'.detach_eq halike⟩
  rw [read, hrevised]
  exact Except.map_eq_ok.2 ⟨again, hagain, rfl⟩

/-- A document with a reference, an unknown element and an element that is written without
content. -/
def sparseText : Text :=
  "<nta><declaration>a&lt;b</declaration><x/><system /></nta>".toList

/-- The model in this document. -/
def sparse : Model where
  nodes := #[
    { kind := .nta, children := [1, 2] },
    { kind := .declaration, parent := some 0, text := some ['a', '<', 'b'],
      slot := some ⟨⟨18, 24⟩, false, ['a', '<', 'b']⟩ },
    { kind := .system, parent := some 0, text := some [], slot := some ⟨⟨50, 52⟩, true, []⟩ }]
  document := some sparseText

theorem read_write_sparse :
    read sparseText = .ok sparse ∧
      (∀ edit ∈ [(2, "a & b > c".toList), (1, []), (2, "\"<\n".toList)],
        (sparse.kind edit.1).hasText = true) ∧
      ∃ edited written again,
        [(2, "a & b > c".toList), (1, []), (2, "\"<\n".toList)].foldlM
          (fun model edit => model.setText edit.1 edit.2) sparse = .ok edited ∧
        edited.write = .ok written ∧ read written = .ok again ∧
          again.detach = edited.detach := by
  have hread : read sparseText = .ok sparse := by
    rw [← Except.toOption_eq_some]
    decide +kernel
  have hedits : ∀ edit ∈ [(2, "a & b > c".toList), (1, []), (2, "\"<\n".toList)],
      (sparse.kind edit.1).hasText = true := by decide
  exact ⟨hread, hedits, read_write hread _ hedits⟩

/-- The new text of the element without content is put between two tags. -/
example : ((sparse.setText 2 "\"<\n".toList).toOption.bind fun edited => edited.write.toOption) =
    some "<nta><declaration>a&lt;b</declaration><x/><system >\"&lt;\n</system></nta>".toList := by
  decide +kernel

/-- The patches of a later model turn the document that an earlier one was read from into the
revised document. -/
theorem turns_of_read {text : Text} {model edited : Model} (hread : read text = .ok model)
    (hedited : model.Keeps edited) :
    ∃ document, Document.read text = .ok document ∧
      Patch.Turns (edited.patchesIn root model.size) 0 text
        { document with root := document.root.revise edited.changes }.text := by
  obtain ⟨document, rooted, hdocument, hroot, rfl⟩ := read_eq_ok hread
  have hkeeps : rooted.Keeps edited := ⟨hedited.size_le, hedited.kind_eq, hedited.slot_eq⟩
  -- Only the root element is patched; what stands around it is kept.
  have hturns := turns_of_readRoot hroot hkeeps
  rw [← Nat.zero_add (Text.size document.prolog)] at hturns
  have hall := (hturns.append (.keep document.epilog)).prepend
  rw [List.append_nil, ← Document.text, Document.text_of_read hdocument] at hall
  exact ⟨document, hdocument, hall⟩

/-- However a model that was read has come by its new texts, it is written as the document with
these texts in it, and it is read from this document again. -/
theorem exists_read_of_retexts {text : Text} {model edited : Model} (hread : read text = .ok model)
    (h : model.Retexts edited) :
    ∃ document written again, Document.read text = .ok document ∧ edited.write = .ok written ∧
      Document.read written = .ok { document with root := document.root.revise edited.changes } ∧
      read written = .ok again ∧ again.detach = edited.detach := by
  obtain ⟨document, hdocument, hturns⟩ := turns_of_read hread h.keeps
  obtain ⟨document', rooted, hdocument', hroot, rfl⟩ := read_eq_ok hread
  obtain rfl := Except.ok.inj (hdocument.symm.trans hdocument')
  let revised := { document with root := document.root.revise edited.changes }
  have hrevised : Document.read revised.text = .ok revised :=
    Document.read_withRoot hdocument
      ((Document.wellFormed_of_read hdocument).revise edited.changes)
  obtain ⟨hsize, hnode⟩ := alike_of_retexts h (slotted_of_read hread)
  have halike : Alike edited.changes rooted edited := ⟨hsize, hnode⟩
  rw [← h.size_eq] at hturns
  obtain ⟨again, hagain, halike'⟩ := alike_of_readRoot hroot edited.changes
  refine ⟨document, revised.text, { again with document := some revised.text }, hdocument,
    write_eq_ok h.document_eq hturns, hrevised, ?_, halike'.detach_eq halike⟩
  rw [read, hrevised]
  exact Except.map_eq_ok.2 ⟨again, hagain, rfl⟩

end Model

end Retrace
