import Retrace.Proofs.Markup.Reader
import Retrace.Proofs.Markup.Reference
import Retrace.Proofs.Model.Patch
import Retrace.Proofs.Model.Reading

/-!
# Documents with other texts

Changed texts are brought into a document by patches, which know bytes but no markup. What comes out
is the same as when the new texts are put into the contents that were read, piece by piece:
`Content.revise` does so, `Model.turns_of_reads` shows that the patches do the same, and
`Content.WellFormed.revise` that the result can be read.

## Main definitions

* `Node.change?`: the text of an element, if it is not the one that was read;
* `Markup.Content.revise`, `Markup.Root.revise`: markup with other texts;
* `Model.patchesIn`: the patches for a range of elements.

## Main results

* `Markup.Content.WellFormed.revise`, `Markup.Root.WellFormed.revise`: revised markup can be read;
* `Model.turns_of_reads`, `Model.turns_of_readRoot`: the patches turn the text of a content, and
  that of the root element, into the text of the revised one.
-/

namespace Retrace

open Markup

/-! ## Revising markup -/

namespace Markup

namespace Content

/-- The content of an element that holds a text. -/
def ofText : Text → Content
  | [] => nil
  | c :: rest => chars (encode (c :: rest)) nil

/-- The content with the texts that `change` gives to its elements in place of the old ones; the
first of its elements has the number `id`. -/
def revise (change : NodeId → Option Text) : (id : NodeId) → Content → Content
  | _, nil => nil
  | id, chars raw next => chars raw (next.revise change id)
  | id, comment body next => comment body (next.revise change id)
  | id, empty tag next =>
    match NodeKind.ofTag? tag.name with
    | none => empty tag (next.revise change id)
    | some kind =>
      match kind.hasText, change id with
      | true, some text => element tag (ofText text) ⟨tag.name, []⟩ (next.revise change (id + 1))
      | _, _ => empty tag (next.revise change (id + 1))
  | id, element tag inner close next =>
    match NodeKind.ofTag? tag.name with
    | none => element tag inner close (next.revise change id)
    | some kind =>
      if kind.hasText then
        element tag ((change id).elim inner ofText) close (next.revise change (id + 1))
      else
        element tag (inner.revise change (id + 1)) close
          (next.revise change (id + 1 + inner.count))

variable {change : NodeId → Option Text}

theorem text_ofText (text : Text) : (ofText text).text = encode text := by
  cases text with
  | nil => rfl
  | cons c rest => exact List.append_nil _

theorem wellFormed_ofText (text : Text) : (ofText text).WellFormed := by
  cases text with
  | nil => trivial
  | cons c rest =>
    have hne : encode (c :: rest) ≠ [] := encode_ne_nil (List.cons_ne_nil c rest)
    exact ⟨⟨hne, all_encode _⟩, rfl, trivial⟩

/-- New texts stand inside elements, never beside character data. -/
theorem startsWithChars_revise (id : NodeId) (content : Content) :
    (content.revise change id).startsWithChars = content.startsWithChars := by
  cases content with
  | nil => rfl
  | chars raw next => rfl
  | comment body next => rfl
  | empty tag next =>
    unfold revise
    split
    · rfl
    · split <;> rfl
  | element tag inner close next =>
    unfold revise
    split
    · rfl
    · split <;> rfl

/-- Whatever texts are put into a content that can be read, it can be read afterwards. -/
theorem WellFormed.revise {content : Content} (h : content.WellFormed) (id : NodeId) :
    (content.revise change id).WellFormed := by
  induction content generalizing id with
  | nil => trivial
  | chars raw next ih =>
    obtain ⟨hraw, hstart, hnext⟩ := h
    exact ⟨hraw, (startsWithChars_revise id next).trans hstart, ih hnext id⟩
  | comment body next ih => exact ⟨h.1, ih h.2 id⟩
  | empty tag next ih =>
    unfold Content.revise
    split
    · exact ⟨h.1, ih h.2 id⟩
    · split
      · rename_i text _ _
        -- The end tag is made from the name of the tag, which is a name.
        exact ⟨h.1, wellFormed_ofText text, ⟨h.1.name, rfl⟩, ih h.2 (id + 1)⟩
      · exact ⟨h.1, ih h.2 (id + 1)⟩
  | element tag inner close next ihinner ihnext =>
    obtain ⟨htag, hinner, hclose, hnext⟩ := h
    unfold Content.revise
    split
    · exact ⟨htag, hinner, hclose, ihnext hnext id⟩
    · split
      · refine ⟨htag, ?_, hclose, ihnext hnext (id + 1)⟩
        cases change id with
        | none => exact hinner
        | some text => exact wellFormed_ofText text
      · exact ⟨htag, ihinner hinner (id + 1), hclose, ihnext hnext _⟩

/-- Without new texts a content stays as it is. -/
theorem revise_none (id : NodeId) (content : Content) :
    content.revise (fun _ => none) id = content := by
  induction content generalizing id with
  | nil => rfl
  | chars raw next ih => rw [revise, ih]
  | comment body next ih => rw [revise, ih]
  | empty tag next ih =>
    unfold revise
    split
    · rw [ih]
    -- There is no new text, so the tag stays closed.
    · split
      · rename_i heq
        cases heq
      · rw [ih]
  | element tag inner close next ihinner ihnext =>
    unfold revise
    split
    · rw [ihnext]
    · split
      · rw [Option.elim_none, ihnext]
      · rw [ihinner, ihnext]

end Content

/-- The root element with other texts inside it. -/
def Root.revise (change : NodeId → Option Text) : Root → Root
  | empty tag => empty tag
  | element tag inner close => element tag (inner.revise change 1) close

theorem Root.WellFormed.revise {root : Root} (h : root.WellFormed)
    (change : NodeId → Option Text) : (root.revise change).WellFormed := by
  cases root with
  | empty tag => exact h
  | element tag inner close => exact ⟨h.1, h.2.1.revise 1, h.2.2⟩

theorem Root.revise_none (root : Root) : root.revise (fun _ => none) = root := by
  cases root with
  | empty tag => rfl
  | element tag inner close => rw [revise, Content.revise_none]

end Markup

/-! ## Patches of single elements -/

namespace Node

/-- The text of an element, if it is not the one that was read. -/
def change? (node : Node) : Option Text :=
  match node.slot, node.text with
  | some slot, some text => if text = slot.asRead then none else some text
  | _, _ => none

variable {node : Node}

/-- An element without a slot has no patch. -/
theorem patch?_of_slot (h : node.slot = none) : node.patch? = none := by
  rw [patch?, h]

/-- An element whose text is the one that was read has no patch. -/
theorem patch?_of_change?_eq_none (h : node.change? = none) : node.patch? = none := by
  rw [change?] at h
  rw [patch?]
  cases hslot : node.slot with
  | none => rfl
  | some slot =>
    cases htext : node.text with
    | none => rfl
    | some text =>
      rw [hslot, htext] at h
      dsimp only at h ⊢
      by_cases hsame : text = slot.asRead
      · rw [if_pos hsame]
      · rw [if_neg hsame] at h
        cases h

/-- The patch of an element puts its new text into its slot. -/
theorem patch?_of_change?_eq_some {slot : Slot} {text : Text} (hslot : node.slot = some slot)
    (h : node.change? = some text) :
    node.patch? = some ⟨slot.span, if slot.selfClosing then
      '>' :: encode text ++ (EndTag.mk node.kind.tag.toList []).text else encode text⟩ := by
  rw [change?, hslot] at h
  rw [patch?, hslot]
  cases htext : node.text with
  | none =>
    rw [htext] at h
    cases h
  | some new =>
    rw [htext] at h
    dsimp only at h ⊢
    by_cases hsame : new = slot.asRead
    · rw [if_pos hsame] at h
      cases h
    · rw [if_neg hsame] at h
      obtain rfl := Option.some.inj h
      rw [if_neg hsame]
      split
      · simp [EndTag.text]
      · rfl

/-- The patch of an element without content replaces the end of its tag. -/
theorem turns_emptyText {tag : Tag} {offset : Nat} {asRead : Text}
    (hslot : node.slot = some
      ⟨⟨offset + Text.size tag.front, offset + Text.size tag.emptyText⟩, true, asRead⟩)
    (hname : node.kind.tag.toList = tag.name) :
    Patch.Turns node.patch?.toList offset tag.emptyText
      (node.change?.elim tag.emptyText fun text =>
        tag.startText ++ (encode text ++ (EndTag.mk tag.name []).text)) := by
  cases hchange : node.change? with
  | none =>
    rw [patch?_of_change?_eq_none hchange]
    exact .keep _
  | some text =>
    -- The slot is just what closes the tag.
    have hstop : offset + Text.size tag.emptyText =
        offset + Text.size tag.front + Text.size Tag.closingMark := by
      rw [Tag.emptyText, Text.size_append, Nat.add_assoc]
    have hturns : Patch.Turns _ offset _ _ := .single tag.front Tag.closingMark
      ('>' :: encode text ++ (EndTag.mk tag.name []).text) [] rfl hstop
    rw [patch?_of_change?_eq_some hslot hchange, hname]
    simpa [Tag.emptyText, Tag.startText] using hturns

/-- The patch of an element with content replaces all of it. -/
theorem turns_inner {inner : Content} {start : Nat} {asRead : Text}
    (hslot : node.slot = some ⟨⟨start, start + Text.size inner.text⟩, false, asRead⟩) :
    Patch.Turns node.patch?.toList start inner.text
      (node.change?.elim inner Content.ofText).text := by
  cases hchange : node.change? with
  | none =>
    rw [patch?_of_change?_eq_none hchange]
    exact .keep _
  | some text =>
    have hturns : Patch.Turns _ start _ _ := .single [] inner.text (encode text) [] rfl rfl
    rw [patch?_of_change?_eq_some hslot hchange, Option.elim_some, Content.text_ofText]
    simpa using hturns

end Node

/-! ## Patches of contents -/

namespace Model

/-- The patches for the elements from one number up to, but not including, another. -/
def patchesIn (model : Model) (start stop : Nat) : List Patch :=
  (List.range' start (stop - start)).filterMap fun id => (model.node id).patch?

theorem patchesIn_self (model : Model) (id : Nat) : model.patchesIn id id = [] := by
  rw [patchesIn, Nat.sub_self]
  rfl

/-- The patches for two ranges that meet are those for the range from the first to the last. -/
theorem patchesIn_append (model : Model) {start middle stop : Nat} (h : start ≤ middle)
    (h' : middle ≤ stop) :
    model.patchesIn start middle ++ model.patchesIn middle stop = model.patchesIn start stop := by
  have hmiddle : middle = start + (middle - start) := by omega
  have hlength : stop - start = middle - start + (stop - middle) := by omega
  rw [patchesIn, patchesIn, patchesIn, ← List.filterMap_append, hlength, ← List.range'_append_1,
    ← hmiddle]

/-- The patch for the first element of a range is the first one. -/
theorem patchesIn_succ (model : Model) {start stop : Nat} (h : start + 1 ≤ stop) :
    model.patchesIn start stop =
      (model.node start).patch?.toList ++ model.patchesIn (start + 1) stop := by
  rw [← patchesIn_append model (Nat.le_succ start) h]
  congr 1
  have hone : start.succ - start = 1 := by omega
  rw [patchesIn, hone, List.range'_one]
  cases hpatch : (model.node start).patch? <;> simp [hpatch]

/-- The texts that have been changed since the model was read. -/
def changes (model : Model) (id : NodeId) : Option Text :=
  (model.node id).change?

/-- The name of a kind is the name of the tags that stand for it. -/
theorem tag_of_ofTag? {name : Text} {kind : NodeKind} (h : NodeKind.ofTag? name = some kind) :
    kind.tag.toList = name := by
  unfold NodeKind.ofTag? at h
  simpa using List.find?_some h

/-- A new element is still there later on. -/
theorem Starts.succ_le_size {kind : NodeKind} {model started edited : Model} {id : NodeId}
    (h : Starts kind model id started) (hle : started.size ≤ edited.size) :
    model.size + 1 ≤ edited.size := by
  rwa [h.size_eq] at hle

/-- A new element that got no text has no slot later on. -/
theorem Starts.slot_eq_none {kind : NodeKind} {model started edited : Model} {id : NodeId}
    (h : Starts kind model id started) (hedited : started.Keeps edited) :
    (edited.node model.size).slot = none := by
  obtain ⟨parent, attributes, heq⟩ := h.node_id
  rw [← h.id_eq, hedited.slot_eq id h.lt_size, heq]
  rfl

/-- A new element that got a text keeps its slot and its kind. -/
theorem Starts.slot_eq_some {kind : NodeKind} {model started edited : Model} {id : NodeId}
    {span : Span} {selfClosing : Bool} {text : Text} (h : Starts kind model id started)
    (hedited : (started.putText id span selfClosing text).Keeps edited) :
    (edited.node model.size).slot = some ⟨span, selfClosing, text⟩ ∧
      (edited.node model.size).kind = kind := by
  have hlt : id < (started.putText id span selfClosing text).size := by
    rw [size_putText]
    exact h.lt_size
  have hkind := hedited.kind_eq id hlt
  rw [← h.id_eq, hedited.slot_eq id hlt, h.node_putText]
  refine ⟨rfl, hkind.trans ?_⟩
  rw [Model.kind, h.node_putText]
  exact h.kind_id

/-- The patches for the elements of a content turn its text into the text of the revised content. -/
theorem turns_of_reads {parent : NodeId} {parentKind : NodeKind} {offset : Nat}
    {content : Content} {model after edited : Model}
    (h : Reads parent parentKind offset content model after) (hedited : after.Keeps edited) :
    Patch.Turns (edited.patchesIn model.size after.size) offset content.text
      (content.revise edited.changes model.size).text := by
  induction h with
  | nil model =>
    rw [patchesIn_self]
    exact .keep _
  | chars _ _ ih => exact (ih hedited).prepend
  | comment _ ih => exact (ih hedited).prepend
  | unknownEmpty hkind _ ih =>
    simp only [Content.revise, hkind]
    exact (ih hedited).prepend
  | @textEmpty parent id parentKind kind offset tag next model started after hkind htext hstart
      hnext ih =>
    have hstarts := starts_of_readStart hstart
    have hkeeps := keeps_of_reads hnext
    obtain ⟨hslot, hkind'⟩ := hstarts.slot_eq_some (hkeeps.trans hedited)
    have hle := hstarts.succ_le_size (size_putText .. ▸ hkeeps.size_le)
    have hname : (edited.node model.size).kind.tag.toList = tag.name := by
      rw [hkind']
      exact tag_of_ofTag? hkind
    have hnext := ih hedited
    rw [size_putText, hstarts.size_eq] at hnext
    have hturns := (Node.turns_emptyText hslot hname).append hnext
    rw [patchesIn_succ edited hle]
    -- Without a new text the tag stays as it is, with one it becomes two tags.
    simp only [Content.revise, hkind, htext, changes]
    cases hchange : (edited.node model.size).change? with
    | none =>
      rw [hchange] at hturns
      exact hturns
    | some text =>
      rw [hchange, Option.elim_some] at hturns
      simpa [Content.text, Content.text_ofText] using hturns
  | @holderEmpty parent id parentKind kind offset tag next model started after hkind htext hstart
      hnext ih =>
    have hstarts := starts_of_readStart hstart
    have hkeeps := keeps_of_reads hnext
    have hslot := hstarts.slot_eq_none (hkeeps.trans hedited)
    have hle := hstarts.succ_le_size hkeeps.size_le
    have hnext := ih hedited
    rw [hstarts.size_eq] at hnext
    rw [patchesIn_succ edited hle, Node.patch?_of_slot hslot]
    simp only [Content.revise, hkind, htext]
    exact hnext.prepend
  | unknown hkind _ _ ih =>
    simp only [Content.revise, hkind]
    exact Patch.Turns.between (.keep _) (ih hedited)
  | @text parent id parentKind kind offset tag close inner next text model started after hkind htext
      hclose hstart hread hnext ih =>
    have hstarts := starts_of_readStart hstart
    have hkeeps := keeps_of_reads hnext
    obtain ⟨hslot, -⟩ := hstarts.slot_eq_some (hkeeps.trans hedited)
    have hle := hstarts.succ_le_size (size_putText .. ▸ hkeeps.size_le)
    have hnext := ih hedited
    rw [size_putText, hstarts.size_eq] at hnext
    rw [patchesIn_succ edited hle]
    simp only [Content.revise, hkind, htext, if_pos]
    exact (Node.turns_inner hslot).between hnext
  | @holder parent id parentKind kind offset tag close inner next model started inside after hkind
      htext hclose hstart hinner hnext ihinner ihnext =>
    have hstarts := starts_of_readStart hstart
    have hinside := keeps_of_reads hinner
    have hbehind := keeps_of_reads hnext
    have hslot := hstarts.slot_eq_none (hinside.trans (hbehind.trans hedited))
    have hsize := size_of_reads hinner
    have hinner := ihinner (hbehind.trans hedited)
    have hnext := ihnext hedited
    rw [hstarts.size_eq] at hinner hsize
    have hle := hstarts.succ_le_size (hinside.trans hbehind).size_le
    -- The element itself has no patch; those inside it come before those behind it.
    have hpatches : edited.patchesIn (model.size + 1) inside.size ++
        edited.patchesIn inside.size after.size =
        edited.patchesIn model.size after.size := by
      rw [patchesIn_append edited (hstarts.succ_le_size hinside.size_le) hbehind.size_le,
        patchesIn_succ edited hle, Node.patch?_of_slot hslot]
      rfl
    rw [← hpatches]
    simp only [Content.revise, hkind, htext, Bool.false_eq_true, if_false]
    rw [← hsize]
    exact hinner.between hnext

/-- The patches of all elements turn the text of the root element into that of the revised one. -/
theorem turns_of_readRoot {offset : Nat} {element : Markup.Root} {model edited : Model}
    (h : readRoot offset element = .ok model) (hedited : model.Keeps edited) :
    Patch.Turns (edited.patchesIn root model.size) offset element.text
      (element.revise edited.changes).text := by
  obtain ⟨-, started, hstarted, hreads⟩ := readRoot_eq_ok.1 h
  obtain ⟨hsize, hslot, -⟩ := slotted_of_readAttributes hstarted
  -- The root element holds no text, so it has no patch.
  have hroot {last : Model} (hkeeps : started.Keeps last) :
      (last.node root).patch?.toList = [] := by
    rw [Node.patch?_of_slot, Option.toList_none]
    rw [hkeeps.slot_eq root (hsize ▸ Nat.one_pos), hslot]
  cases element with
  | empty tag =>
    obtain rfl := hreads
    have hle : root + 1 ≤ 1 := Nat.le_refl 1
    have hnil : edited.patchesIn (root + 1) 1 = [] := patchesIn_self edited 1
    rw [hsize, patchesIn_succ edited hle, hroot hedited, hnil]
    exact .keep _
  | element tag inner close =>
    have hkeeps := keeps_of_reads hreads.2
    have hle : root + 1 ≤ model.size := by
      have hle := hkeeps.size_le
      rwa [hsize] at hle
    have hturns := turns_of_reads hreads.2 hedited
    rw [hsize] at hturns
    rw [patchesIn_succ edited hle, hroot (hkeeps.trans hedited)]
    have hall := (hturns.append (.keep close.text)).prepend
    rw [List.append_nil] at hall
    exact hall

end Model

end Retrace
