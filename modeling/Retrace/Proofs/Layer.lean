import Retrace.Layer
import Retrace.Proofs.Model.Address
import Retrace.Proofs.Revision.Strand

/-!
# Layers and the models they belong to

A layer describes edits of a model if every entry is about the text of the element at its path
(`Layer.Describes`). Bringing such a layer into the model gives each of these elements its revised
text and changes nothing else (`Describes.committed`).

## Main definitions

* `Layer.Describes`: the entries of a layer are reached by edits of the texts of a model;
* `Layer.Committed`: how a model differs from the one before once a layer is brought into it.
-/

namespace Retrace

namespace Layer

variable {model : Model} {layer : Layer}

/-- Every entry holds edits of the text of the element at its path, and no path has two entries. -/
structure Describes (layer : Layer) (model : Model) : Prop where
  /-- The paths are in ascending order. -/
  sorted : layer.fields.Pairwise fun entry later => entry.1 < later.1
  /-- The revisions are reached by edits of the texts at the paths. -/
  entry : ∀ {path revised}, (path, revised) ∈ layer.fields →
    ∃ address text, address.render = path ∧ model.At revised.node address ∧
      model.text? revised.node = some text ∧ revised.revision.Reachable text

/-! ## Entries -/

theorem describes_empty (model : Model) : Describes {} model :=
  ⟨List.Pairwise.nil, fun h => by cases h⟩

theorem mem_putInto {path : String} {revised : RevisedText} {entry : String × RevisedText}
    {fields : List (String × RevisedText)} (h : entry ∈ putInto path revised fields) :
    entry = (path, revised) ∨ entry ∈ fields := by
  induction fields with
  | nil => exact Or.inl (List.mem_singleton.1 h)
  | cons first later ih =>
    obtain ⟨other, old⟩ := first
    rw [putInto] at h
    split at h
    · rcases List.mem_cons.1 h with h | h
      · exact Or.inl h
      · exact Or.inr (List.mem_cons_of_mem _ h)
    · split at h
      · -- The new entry comes before the first one.
        exact List.mem_cons.1 h
      · rcases List.mem_cons.1 h with h | h
        · exact Or.inr (List.mem_cons.2 (Or.inl h))
        · exact (ih h).imp_right (List.mem_cons_of_mem _)

/-- Entries are put where they belong. -/
theorem sorted_putInto {path : String} {revised : RevisedText}
    {fields : List (String × RevisedText)}
    (h : fields.Pairwise fun entry later => entry.1 < later.1) :
    (putInto path revised fields).Pairwise fun entry later => entry.1 < later.1 := by
  induction fields with
  | nil => exact List.pairwise_singleton _ _
  | cons first later ih =>
    obtain ⟨other, old⟩ := first
    obtain ⟨hfirst, hlater⟩ := List.pairwise_cons.1 h
    rw [putInto]
    by_cases heq : other = path
    · rw [if_pos heq]
      -- An entry at the same path is replaced.
      exact List.pairwise_cons.2 ⟨heq ▸ hfirst, hlater⟩
    · rw [if_neg heq]
      by_cases hlt : path < other
      · rw [if_pos hlt]
        refine List.pairwise_cons.2 ⟨fun entry hentry => ?_, h⟩
        rcases List.mem_cons.1 hentry with rfl | hentry
        · exact hlt
        · exact String.lt_trans hlt (hfirst entry hentry)
      · rw [if_neg hlt]
        refine List.pairwise_cons.2 ⟨fun entry hentry => ?_, ih hlater⟩
        rcases mem_putInto hentry with rfl | hentry
        · -- The order of paths is total.
          by_cases hother : other < path
          · exact hother
          · exact absurd (String.le_antisymm (String.not_lt.1 hlt) (String.not_lt.1 hother)) heq
        · exact hfirst entry hentry

/-- Edits of the text of an element can be put at its path. -/
theorem Describes.put (h : layer.Describes model) {node : NodeId} {address : Path} {text : Text}
    {revision : Revision} (hat : model.At node address) (htext : model.text? node = some text)
    (hrevision : revision.Reachable text) :
    (layer.put address.render ⟨node, revision⟩).Describes model where
  sorted := sorted_putInto h.sorted
  entry hentry := by
    rcases mem_putInto hentry with heq | hentry
    · obtain ⟨rfl, rfl⟩ := Prod.mk.inj heq
      exact ⟨address, text, rfl, hat, htext, hrevision⟩
    · exact h.entry hentry

/-- The revision at a path is that of an entry. -/
theorem exists_mem_of_get? {path : String} {revision : Revision}
    (h : layer.get? path = some revision) :
    ∃ revised, (path, revised) ∈ layer.fields ∧ revised.revision = revision := by
  obtain ⟨revised, hlookup, rfl⟩ := Option.map_eq_some_iff.1 h
  obtain ⟨front, back, hfields, -⟩ := List.lookup_eq_some_iff.1 hlookup
  exact ⟨revised, by rw [hfields]; simp, rfl⟩

/-- Without a revision at a path there is no entry. -/
theorem not_mem_of_get?_eq_none {path : String} (h : layer.get? path = none)
    (revised : RevisedText) : (path, revised) ∉ layer.fields := by
  intro hmem
  have hlookup := List.lookup_eq_none_iff.1 (Option.map_eq_none_iff.1 h) (path, revised) hmem
  simp at hlookup

theorem lookup_putInto_of_ne {path other : String} (h : other ≠ path) (revised : RevisedText)
    (fields : List (String × RevisedText)) :
    (putInto path revised fields).lookup other = fields.lookup other := by
  have hne : (other == path) = false := beq_false_of_ne h
  induction fields with
  | nil => simp only [putInto, List.lookup_cons, hne]
  | cons first later ih =>
    obtain ⟨first, old⟩ := first
    rw [putInto]
    split
    · rename_i heq
      simp only [heq, List.lookup_cons, hne]
    · split
      · simp [List.lookup_cons, hne]
      · simp [List.lookup_cons, ih]

/-- Putting an entry changes nothing at other paths. -/
theorem get?_put_of_ne {path other : String} (h : other ≠ path) (revised : RevisedText) :
    (layer.put path revised).get? other = layer.get? other := by
  rw [get?, put, lookup_putInto_of_ne h]
  rfl

theorem lookup_putInto_self (path : String) (revised : RevisedText)
    (fields : List (String × RevisedText)) :
    (putInto path revised fields).lookup path = some revised := by
  induction fields with
  | nil => simp [putInto]
  | cons first later ih =>
    obtain ⟨other, old⟩ := first
    rw [putInto]
    split
    · simp
    · rename_i hne
      split
      · simp
      · have hother : (path == other) = false := beq_false_of_ne (Ne.symm hne)
        rw [List.lookup_cons, hother]
        exact ih

/-- Putting an entry sets the revision at its path. -/
theorem get?_put_self (path : String) (revised : RevisedText) :
    (layer.put path revised).get? path = some revised.revision := by
  rw [get?, put, lookup_putInto_self]
  rfl

/-- Without a revision at its path, a diagnostic stays as it is. -/
theorem retrace?_of_get?_eq_none {diagnostic : Diagnostic}
    (h : layer.get? diagnostic.path = none) : layer.retrace? diagnostic = some diagnostic := by
  rw [retrace?, h]

/-- A diagnostic that is moved back is still about the same element. -/
theorem path_of_retrace? {diagnostic traced : Diagnostic}
    (h : layer.retrace? diagnostic = some traced) : traced.path = diagnostic.path := by
  unfold retrace? at h
  split at h
  · obtain ⟨span, -, rfl⟩ := Option.map_eq_some_iff.1 h
    rfl
  · rw [Option.some.inj h]

/-- The revision at the path of an element is reached by edits of its text. -/
theorem Describes.reachable_of_get? (hmodel : model.WellFormed) (h : layer.Describes model)
    {node : NodeId} {address : Path} {revision : Revision} (hat : model.At node address)
    (hget : layer.get? address.render = some revision) :
    ∃ text, model.text? node = some text ∧ revision.Reachable text := by
  obtain ⟨revised, hmem, rfl⟩ := exists_mem_of_get? hget
  obtain ⟨address', text, hrender, hat', htext, hrevision⟩ := h.entry hmem
  rw [hat.node_unique_of_render hmodel hat' hrender.symm]
  exact ⟨text, htext, hrevision⟩

/-- No element has two entries. -/
theorem Describes.nodup_nodes (hmodel : model.WellFormed) (h : layer.Describes model) :
    layer.fields.Pairwise fun entry later => entry.2.node ≠ later.2.node := by
  refine List.Pairwise.imp_of_mem (fun {entry later} hentry hlater hlt heq => ?_) h.sorted
  obtain ⟨address, -, hrender, hat, -⟩ := h.entry hentry
  obtain ⟨address', -, hrender', hat', -⟩ := h.entry hlater
  rw [heq] at hat
  rw [← hrender, ← hrender', hat.path_unique hmodel hat'] at hlt
  exact String.lt_irrefl _ hlt

/-! ## Bringing a layer into its model -/

/-- The model after bringing entries into it differs from the one before in the texts of these
entries alone. -/
structure Committed (fields : List (String × RevisedText)) (before after : Model) : Prop where
  /-- No element changes its kind. -/
  kind_eq : ∀ id, after.kind id = before.kind id
  /-- The elements stay where they are. -/
  children_eq : ∀ id, (after.node id).children = (before.node id).children
  /-- Elements without an entry keep their text. -/
  text?_eq : ∀ {id}, (∀ entry ∈ fields, entry.2.node ≠ id) → after.text? id = before.text? id
  /-- The others get their revised text. -/
  text?_of_mem : ∀ {entry}, entry ∈ fields →
    after.text? entry.2.node = some entry.2.revision.current
  /-- The elements still form a tree. -/
  wellFormed : before.WellFormed → after.WellFormed

/-- The texts after setting one. -/
theorem text?_of_setText {edited : Model} {id : NodeId} {text : Text}
    (h : model.setText id text = .ok edited) (other : NodeId) :
    edited.text? other = if id = other then some text else model.text? other := by
  obtain ⟨htext, rfl⟩ := Model.setText_eq_ok h
  have hlt : id < model.size := by
    apply Nat.lt_of_not_le
    intro hle
    rw [Model.kind, Model.node_of_size_le hle] at htext
    cases htext
  rw [Model.text?, Model.node_update]
  by_cases heq : id = other
  · rw [if_pos ⟨heq, hlt⟩, if_pos heq]
  · rw [if_neg fun hand => heq hand.1, if_neg heq]
    rfl

theorem committed_of_commitAll {fields : List (String × RevisedText)} {model after : Model}
    (hnodes : fields.Pairwise fun entry later => entry.2.node ≠ later.2.node)
    (h : commitAll fields model = .ok after) : Committed fields model after := by
  induction fields generalizing model with
  | nil =>
    obtain rfl := Except.ok.inj h
    exact ⟨fun _ => rfl, fun _ => rfl, fun _ => rfl, fun h => (List.not_mem_nil h).elim, id⟩
  | cons first later ih =>
    obtain ⟨hfirst, hlater⟩ := List.pairwise_cons.1 hnodes
    obtain ⟨path, revised⟩ := first
    unfold commitAll at h
    split at h
    · cases h
    · rename_i middle hset
      -- The first entry is brought in, the others into what comes of it.
      have hrest := ih hlater h
      obtain ⟨-, hmiddle⟩ := Model.setText_eq_ok hset
      exact {
        kind_eq := fun id => by
          rw [hrest.kind_eq, hmiddle]
          exact Model.apply_node_update Node.kind rfl id
        children_eq := fun id => by
          rw [hrest.children_eq, hmiddle]
          exact Model.apply_node_update Node.children rfl id
        text?_eq := fun {id} hne => by
          rw [hrest.text?_eq fun entry hentry => hne entry (List.mem_cons_of_mem _ hentry),
            text?_of_setText hset, if_neg (hne _ List.mem_cons_self)]
        text?_of_mem := fun {entry} hentry => by
          rcases List.mem_cons.1 hentry with rfl | hentry
          · -- No later entry is about the same element, so its text stays.
            rw [hrest.text?_eq fun entry hentry heq => hfirst entry hentry heq.symm,
              text?_of_setText hset, if_pos rfl]
          · exact hrest.text?_of_mem hentry
        wellFormed := fun hmodel => hrest.wellFormed (hmodel.setText hset) }

/-- Entries can be brought into a model if all of their elements carry a text. -/
theorem exists_commitAll {fields : List (String × RevisedText)} {model : Model}
    (h : ∀ entry ∈ fields, (model.kind entry.2.node).hasText = true) :
    ∃ after, commitAll fields model = .ok after := by
  induction fields generalizing model with
  | nil => exact ⟨model, rfl⟩
  | cons first later ih =>
    obtain ⟨path, revised⟩ := first
    obtain ⟨hfirst, hlater⟩ := List.forall_mem_cons.1 h
    rw [commitAll, Model.setText, if_pos hfirst]
    -- Setting a text leaves the kinds as they are.
    refine ih fun entry hentry => ?_
    have hkind (id : NodeId) : (model.update revised.node fun node =>
        { node with text := some revised.revision.current }).kind id = model.kind id :=
      Model.apply_node_update Node.kind rfl id
    rw [hkind]
    exact hlater entry hentry

/-- A layer has entries for elements that carry a text only. -/
theorem Describes.hasText (hmodel : model.WellFormed) (h : layer.Describes model)
    {entry : String × RevisedText} (hentry : entry ∈ layer.fields) :
    (model.kind entry.2.node).hasText = true := by
  obtain ⟨-, text, -, -, htext, -⟩ := h.entry hentry
  rw [← hmodel.isSome_text, htext]
  rfl

/-- A layer can be brought into the model it describes. -/
theorem Describes.exists_commit (hmodel : model.WellFormed) (h : layer.Describes model) :
    ∃ after, layer.commit model = .ok after :=
  exists_commitAll fun _ hentry => h.hasText hmodel hentry

/-- Bringing a layer into the model it describes changes the texts of its entries alone. -/
theorem Describes.committed {after : Model} (hmodel : model.WellFormed)
    (h : layer.Describes model) (hcommit : layer.commit model = .ok after) :
    Committed layer.fields model after :=
  committed_of_commitAll (h.nodup_nodes hmodel) hcommit

variable {after : Model} {node : NodeId} {address : Path}

theorem Committed.at_of_at {fields : List (String × RevisedText)} (h : Committed fields model after)
    (hat : model.At node address) : after.At node address :=
  hat.congr h.kind_eq h.children_eq

theorem Committed.at_before {fields : List (String × RevisedText)} (h : Committed fields model after)
    (hat : after.At node address) : model.At node address :=
  hat.congr (fun id => (h.kind_eq id).symm) fun id => (h.children_eq id).symm

/-- The element at a path with a revision gets the revised text. -/
theorem Describes.text?_of_get? (hmodel : model.WellFormed) (h : layer.Describes model)
    (hcommit : layer.commit model = .ok after) (hat : model.At node address) {revision : Revision}
    (hget : layer.get? address.render = some revision) :
    after.text? node = some revision.current := by
  obtain ⟨revised, hmem, rfl⟩ := exists_mem_of_get? hget
  obtain ⟨address', -, hrender, hat', -⟩ := h.entry hmem
  rw [hat.node_unique_of_render hmodel hat' hrender.symm]
  exact (h.committed hmodel hcommit).text?_of_mem hmem

/-- The element at a path without a revision keeps its text. -/
theorem Describes.text?_of_get?_eq_none (hmodel : model.WellFormed) (h : layer.Describes model)
    (hcommit : layer.commit model = .ok after) (hat : model.At node address)
    (hget : layer.get? address.render = none) : after.text? node = model.text? node := by
  refine (h.committed hmodel hcommit).text?_eq fun entry hentry heq => ?_
  obtain ⟨address', -, hrender, hat', -⟩ := h.entry hentry
  rw [heq] at hat'
  rw [← hat.path_unique hmodel hat'] at hrender
  exact not_mem_of_get?_eq_none hget entry.2 (hrender ▸ hentry)

/-- If a layer is brought into two models, an element that had the same text in both has the same
text again. -/
theorem Describes.text?_congr {other otherAfter : Model} (hmodel : model.WellFormed)
    (hother : other.WellFormed) (h : layer.Describes model) (h' : layer.Describes other)
    (hcommit : layer.commit model = .ok after) (hcommit' : layer.commit other = .ok otherAfter)
    (hat : model.At node address) (hat' : other.At node address)
    (htext : other.text? node = model.text? node) : otherAfter.text? node = after.text? node := by
  cases hget : layer.get? address.render with
  | none =>
    rw [h'.text?_of_get?_eq_none hother hcommit' hat' hget,
      h.text?_of_get?_eq_none hmodel hcommit hat hget, htext]
  | some revision =>
    rw [h'.text?_of_get? hother hcommit' hat' hget, h.text?_of_get? hmodel hcommit hat hget]

end Layer

end Retrace
