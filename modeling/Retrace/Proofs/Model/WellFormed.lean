import Retrace.Model.Basic

/-!
# Well-formed models

A model is stored as an array of elements that refer to each other by number. What makes such an
array a tree is gathered in `Model.WellFormed`: every element but the root is a child of exactly
one element with a smaller number, stands where its kind may stand, and carries a text exactly if
its kind does. The empty model has these properties, and every operation keeps them.

## Main results

* `Model.wellFormed_empty`: the empty model is well-formed;
* `Model.WellFormed.addChild`, `Model.WellFormed.setText`, `Model.WellFormed.setAttribute`: the
  operations keep models well-formed.
-/

namespace Retrace

namespace Model

/-- The elements of a model form a tree. -/
structure WellFormed (model : Model) : Prop where
  /-- The root is there. -/
  pos : 0 < model.size
  /-- The root is a model. -/
  kind_root : model.kind root = .nta
  /-- The root is not inside another element. -/
  parent_root : (model.node root).parent = none
  /-- An element knows around which elements it is. -/
  parent_of_mem : ∀ {id child}, child ∈ (model.node id).children →
    (model.node child).parent = some id
  /-- Elements are added behind the element around them. -/
  lt_of_mem : ∀ {id child}, child ∈ (model.node id).children → id < child ∧ child < model.size
  /-- Every element but the root is inside another one. -/
  exists_mem : ∀ {child}, 0 < child → child < model.size →
    ∃ id, child ∈ (model.node id).children
  /-- No element is listed twice. -/
  nodup : ∀ id, (model.node id).children.Nodup
  /-- Elements stand where their kind may stand. -/
  kind_mem : ∀ {id child}, child ∈ (model.node id).children →
    model.kind child ∈ (model.kind id).childKinds
  /-- Elements of kinds that do not repeat stand only once inside an element. -/
  single : ∀ {id child other}, child ∈ (model.node id).children →
    other ∈ (model.node id).children → model.kind child = model.kind other →
    (model.kind child).repeats = false → child = other
  /-- Exactly the elements whose kind carries a text have one. -/
  isSome_text : ∀ id, (model.text? id).isSome = (model.kind id).hasText
  /-- No attribute is set twice. -/
  nodup_attributes : ∀ id, ((model.node id).attributes.map Prod.fst).Nodup

/-- Elements of kinds that carry a text have one. -/
theorem WellFormed.exists_text {model : Model} (h : model.WellFormed) {id : NodeId}
    (hkind : (model.kind id).hasText = true) : ∃ text, model.text? id = some text :=
  Option.isSome_iff_exists.1 ((h.isSome_text id).trans hkind)

/-- Elements of other kinds have none. -/
theorem WellFormed.text?_eq_none {model : Model} (h : model.WellFormed) {id : NodeId}
    (hkind : (model.kind id).hasText = false) : model.text? id = none :=
  Option.isNone_iff_eq_none.1 (Option.isSome_eq_false_iff.1 ((h.isSome_text id).trans hkind))

/-! ## Looking up elements -/

@[simp] theorem size_update (model : Model) (id : NodeId) (change : Node → Node) :
    (model.update id change).size = model.size :=
  Array.size_modify

/-- Changing an element changes that element alone. -/
theorem node_update (model : Model) (id other : NodeId) (change : Node → Node) :
    (model.update id change).node other =
      if id = other ∧ id < model.size then change (model.node id) else model.node other := by
  simp only [node, update, size, Array.getD_eq_getD_getElem?, Array.getElem?_modify]
  by_cases heq : id = other
  · subst heq
    by_cases hlt : id < model.nodes.size <;> simp [hlt]
  · simp [heq]

theorem node_update_of_ne {model : Model} {id other : NodeId} (change : Node → Node)
    (h : id ≠ other) : (model.update id change).node other = model.node other := by
  rw [node_update, if_neg fun hand => h hand.1]

/-- What a change leaves as it is in the element that is changed stays as it is in every element. -/
theorem apply_node_update {α : Type} (field : Node → α) {model : Model} {id : NodeId}
    {change : Node → Node} (h : field (change (model.node id)) = field (model.node id))
    (other : NodeId) : field ((model.update id change).node other) = field (model.node other) := by
  rw [node_update]
  split
  · rename_i heq
    rw [h, heq.1]
  · rfl

/-- Outside the model there are only empty roots. -/
theorem node_of_size_le {model : Model} {id : NodeId} (h : model.size ≤ id) :
    model.node id = .ofKind .nta none := by
  simp only [node, Array.getD_eq_getD_getElem?, Array.getElem?_eq_none h, Option.getD_none]

/-- An element that has children is in the model. -/
theorem lt_size_of_mem_children {model : Model} {id child : NodeId}
    (h : child ∈ (model.node id).children) : id < model.size := by
  apply Nat.lt_of_not_le
  intro hle
  rw [node_of_size_le hle] at h
  cases h

@[simp] theorem size_insert (model : Model) (parent : NodeId) (kind : NodeKind) :
    (model.insert parent kind).size = model.size + 1 := by
  simp only [insert, size, Array.size_push]
  rw [← size, size_update, size]

/-- The elements after adding one: the new one, the one around it, and the others. -/
theorem node_insert (model : Model) (parent other : NodeId) (kind : NodeKind) :
    (model.insert parent kind).node other =
      if other = model.size then .ofKind kind parent
      else if parent = other ∧ parent < model.size then
        { model.node other with children := (model.node other).children ++ [model.size] }
      else model.node other := by
  have hpush (nodes : Array Node) (document : Option Text) (added : Node) :
      Model.node ⟨nodes.push added, document⟩ other =
        if other = nodes.size then added else Model.node ⟨nodes, document⟩ other := by
    simp only [node, Array.getD_eq_getD_getElem?, Array.getElem?_push]
    split <;> rfl
  rw [insert, hpush, ← size, size_update, node_update]
  split
  · rfl
  · split
    · rename_i hparent
      rw [hparent.1]
    · rfl

/-! ## Changes of single elements -/

/-- A change of an element that leaves its place in the tree alone keeps models well-formed. -/
theorem WellFormed.update {model : Model} (h : model.WellFormed) (id : NodeId)
    {change : Node → Node} (hkind : (change (model.node id)).kind = model.kind id)
    (hparent : (change (model.node id)).parent = (model.node id).parent)
    (hchildren : (change (model.node id)).children = (model.node id).children)
    (htext : (change (model.node id)).text.isSome = (model.kind id).hasText)
    (hattributes : ((change (model.node id)).attributes.map Prod.fst).Nodup) :
    (model.update id change).WellFormed := by
  -- The fields that make up the tree are the same for every element.
  have hkinds (other : NodeId) : (model.update id change).kind other = model.kind other :=
    apply_node_update Node.kind hkind other
  have hparents := apply_node_update Node.parent hparent
  have hlists := apply_node_update Node.children hchildren
  exact {
    pos := by rw [size_update]; exact h.pos
    kind_root := by rw [hkinds]; exact h.kind_root
    parent_root := by rw [hparents]; exact h.parent_root
    parent_of_mem := by simp only [hlists, hparents]; exact h.parent_of_mem
    lt_of_mem := by simp only [hlists, size_update]; exact h.lt_of_mem
    exists_mem := by simp only [hlists, size_update]; exact h.exists_mem
    nodup := by simp only [hlists]; exact h.nodup
    kind_mem := by simp only [hlists, hkinds]; exact h.kind_mem
    single := by simp only [hlists, hkinds]; exact h.single
    isSome_text := by
      intro other
      rw [hkinds, text?, node_update]
      split
      · rename_i heq
        rw [htext, heq.1]
      · exact h.isSome_text other
    nodup_attributes := by
      intro other
      rw [node_update]
      split
      · exact hattributes
      · exact h.nodup_attributes other }

/-- A name that is not among the names of attributes is put behind them. -/
theorem map_fst_putAttribute (name value : Text) (attributes : List (Text × Text)) :
    (Node.putAttribute name value attributes).map Prod.fst =
      if name ∈ attributes.map Prod.fst then attributes.map Prod.fst
      else attributes.map Prod.fst ++ [name] := by
  induction attributes with
  | nil => rfl
  | cons first later ih =>
    obtain ⟨key, old⟩ := first
    rw [Node.putAttribute]
    by_cases hkey : key = name
    · simp [hkey]
    · -- The first attribute has another name, so the others decide.
      have hne : ¬ name = key := fun heq => hkey heq.symm
      rw [if_neg hkey, List.map_cons, ih]
      by_cases hmem : name ∈ later.map Prod.fst
      · rw [if_pos hmem, List.map_cons, if_pos (List.mem_cons_of_mem _ hmem)]
      · rw [if_neg hmem, List.map_cons, if_neg, List.cons_append]
        exact fun hcons => (List.mem_cons.1 hcons).elim hne hmem

theorem WellFormed.setAttribute {model : Model} (h : model.WellFormed) (id : NodeId)
    (name value : Text) : (model.setAttribute id name value).WellFormed := by
  refine h.update id rfl rfl rfl (h.isSome_text id) ?_
  rw [Node.setAttribute, map_fst_putAttribute]
  split
  · exact h.nodup_attributes id
  · rename_i hmem
    refine List.nodup_append.2 ⟨h.nodup_attributes id, by simp, ?_⟩
    intro key hkey other hother heq
    rw [List.mem_singleton.1 hother] at heq
    exact hmem (heq ▸ hkey)

/-- What is known when a text could be set. -/
theorem setText_eq_ok {model edited : Model} {id : NodeId} {text : Text}
    (h : model.setText id text = .ok edited) :
    (model.kind id).hasText = true ∧
      edited = model.update id fun node => { node with text := some text } := by
  unfold setText at h
  split at h
  · rename_i htext
    exact ⟨htext, (Except.ok.inj h).symm⟩
  · cases h

theorem WellFormed.setText {model edited : Model} (h : model.WellFormed) {id : NodeId}
    {text : Text} (hset : model.setText id text = .ok edited) : edited.WellFormed := by
  obtain ⟨htext, rfl⟩ := setText_eq_ok hset
  exact h.update id rfl rfl rfl htext.symm (h.nodup_attributes id)

/-! ## Adding elements -/

section Insert

variable {model : Model} {parent : NodeId} {kind : NodeKind}

theorem kind_insert (other : NodeId) :
    (model.insert parent kind).kind other =
      if other = model.size then kind else model.kind other := by
  rw [Model.kind, node_insert]
  split
  · rfl
  · split <;> rfl

theorem parent_insert (other : NodeId) :
    ((model.insert parent kind).node other).parent =
      if other = model.size then some parent else (model.node other).parent := by
  rw [node_insert]
  split
  · rfl
  · split <;> rfl

/-- A new element was read from nowhere. -/
theorem slot_insert (other : NodeId) :
    ((model.insert parent kind).node other).slot =
      if other = model.size then none else (model.node other).slot := by
  rw [node_insert]
  split
  · rfl
  · split <;> rfl

/-- A new element has a text if its kind carries one, and the texts of the others stay. -/
theorem isSome_text_insert (h : ∀ id, (model.text? id).isSome = (model.kind id).hasText)
    (other : NodeId) : ((model.insert parent kind).text? other).isSome =
      ((model.insert parent kind).kind other).hasText := by
  rw [kind_insert, text?, node_insert]
  split
  · rw [Node.ofKind]
    cases kind.hasText <;> rfl
  · split
    · exact h other
    · exact h other

/-- The new element is the last child of the element around it; no other element gets a child. -/
theorem children_insert (hparent : parent < model.size) (other : NodeId) :
    ((model.insert parent kind).node other).children =
      if parent = other then (model.node other).children ++ [model.size]
      else (model.node other).children := by
  rw [node_insert]
  by_cases hnew : other = model.size
  · have hne : ¬ parent = other := fun heq => Nat.ne_of_lt hparent (heq.trans hnew)
    rw [if_pos hnew, if_neg hne, node_of_size_le (Nat.le_of_eq hnew.symm)]
    rfl
  · rw [if_neg hnew]
    by_cases heq : parent = other
    · rw [if_pos ⟨heq, hparent⟩, if_pos heq]
    · rw [if_neg fun hand => heq hand.1, if_neg heq]

theorem mem_children_insert (hparent : parent < model.size) {id child : NodeId} :
    child ∈ ((model.insert parent kind).node id).children ↔
      child ∈ (model.node id).children ∨ id = parent ∧ child = model.size := by
  rw [children_insert hparent]
  by_cases heq : parent = id
  · rw [if_pos heq, List.mem_append, List.mem_singleton, eq_comm (a := id), and_iff_right heq]
  · rw [if_neg heq, or_iff_left fun hand => heq hand.1.symm]

theorem WellFormed.insert (h : model.WellFormed) (hparent : parent < model.size)
    (hkind : kind ∈ (model.kind parent).childKinds)
    (hsingle : kind.repeats = false →
      ∀ child ∈ (model.node parent).children, model.kind child ≠ kind) :
    (model.insert parent kind).WellFormed := by
  have hroot : root ≠ model.size := Nat.ne_of_lt h.pos
  -- The elements of the model before are not the new one.
  have hold {id child : NodeId} (hmem : child ∈ (model.node id).children) : child ≠ model.size :=
    Nat.ne_of_lt (h.lt_of_mem hmem).2
  exact {
    pos := by rw [size_insert]; exact Nat.succ_pos _
    kind_root := by rw [kind_insert, if_neg hroot]; exact h.kind_root
    parent_root := by rw [parent_insert, if_neg hroot]; exact h.parent_root
    parent_of_mem := by
      intro id child hmem
      rw [parent_insert]
      rcases (mem_children_insert hparent).1 hmem with hmem | ⟨rfl, rfl⟩
      · rw [if_neg (hold hmem)]
        exact h.parent_of_mem hmem
      · rw [if_pos rfl]
    lt_of_mem := by
      intro id child hmem
      rw [size_insert]
      rcases (mem_children_insert hparent).1 hmem with hmem | ⟨rfl, rfl⟩
      · exact ⟨(h.lt_of_mem hmem).1, Nat.lt_succ_of_lt (h.lt_of_mem hmem).2⟩
      · exact ⟨hparent, Nat.lt_succ_self _⟩
    exists_mem := by
      intro child hpos hlt
      rw [size_insert] at hlt
      rcases Nat.lt_succ_iff_lt_or_eq.1 hlt with hlt | rfl
      · obtain ⟨id, hmem⟩ := h.exists_mem hpos hlt
        exact ⟨id, (mem_children_insert hparent).2 (Or.inl hmem)⟩
      · exact ⟨parent, (mem_children_insert hparent).2 (Or.inr ⟨rfl, rfl⟩)⟩
    nodup := by
      intro id
      rw [children_insert hparent]
      split
      · refine List.nodup_append.2 ⟨h.nodup id, by simp, ?_⟩
        intro child hmem other hother heq
        exact hold hmem (heq.trans (List.mem_singleton.1 hother))
      · exact h.nodup id
    kind_mem := by
      intro id child hmem
      rw [kind_insert, kind_insert]
      rcases (mem_children_insert hparent).1 hmem with hmem | ⟨rfl, rfl⟩
      · rw [if_neg (hold hmem), if_neg (Nat.ne_of_lt (lt_size_of_mem_children hmem))]
        exact h.kind_mem hmem
      · rw [if_pos rfl, if_neg (Nat.ne_of_lt hparent)]
        exact hkind
    single := by
      intro id child other hchild hother
      rw [kind_insert, kind_insert]
      rcases (mem_children_insert hparent).1 hchild with hchild | ⟨rfl, rfl⟩ <;>
        rcases (mem_children_insert hparent).1 hother with hother | ⟨heq, rfl⟩
      · rw [if_neg (hold hchild), if_neg (hold hother)]
        exact h.single hchild hother
      · rw [if_neg (hold hchild), if_pos rfl]
        intro hsame hrepeats
        rw [hsame] at hrepeats
        -- A second child of a kind that does not repeat would have been refused.
        exact absurd hsame (hsingle hrepeats child (heq ▸ hchild))
      · rw [if_pos rfl, if_neg (hold hother)]
        intro hsame hrepeats
        exact absurd hsame.symm (hsingle hrepeats other hother)
      · exact fun _ _ => rfl
    isSome_text := isSome_text_insert h.isSome_text
    nodup_attributes := by
      intro id
      rw [node_insert]
      split
      · exact List.nodup_nil
      · split
        · exact h.nodup_attributes id
        · exact h.nodup_attributes id }

/-- What is known when an element could be added. -/
theorem addChild_eq_ok {edited : Model} {id : NodeId}
    (h : model.addChild parent kind = .ok (id, edited)) :
    model.refusal? parent kind = none ∧ id = model.size ∧ edited = model.insert parent kind := by
  unfold addChild at h
  split at h
  · cases h
  · rename_i hrefusal
    obtain ⟨rfl, rfl⟩ := Prod.mk.inj (Except.ok.inj h)
    exact ⟨hrefusal, rfl, rfl⟩

/-- What is known when an element may be added. -/
theorem refusal?_eq_none_iff :
    model.refusal? parent kind = none ↔
      kind ∈ (model.kind parent).childKinds ∧ (kind.repeats = false →
        ∀ child ∈ (model.node parent).children, model.kind child ≠ kind) := by
  unfold refusal?
  by_cases hkind : kind ∈ (model.kind parent).childKinds
  · cases hrepeats : kind.repeats <;>
      simp [hkind, childrenOfKind, List.filter_eq_nil_iff]
  · simp [hkind]

theorem WellFormed.addChild {edited : Model} {id : NodeId} (h : model.WellFormed)
    (hparent : parent < model.size) (hadd : model.addChild parent kind = .ok (id, edited)) :
    edited.WellFormed := by
  obtain ⟨hrefusal, -, rfl⟩ := addChild_eq_ok hadd
  obtain ⟨hkind, hsingle⟩ := refusal?_eq_none_iff.1 hrefusal
  exact h.insert hparent hkind hsingle

end Insert

/-! ## The empty model -/

/-- Whatever number is looked up in the empty model, the root is found. -/
theorem node_empty (id : NodeId) : empty.node id = .ofKind .nta none := by
  cases id with
  | zero => rfl
  | succ id => rfl

theorem wellFormed_empty : empty.WellFormed := by
  have hchildren (id : NodeId) : (empty.node id).children = [] := by
    rw [node_empty]
    rfl
  have hnot {id child : NodeId} : ¬ child ∈ (empty.node id).children := by
    rw [hchildren]
    exact List.not_mem_nil
  exact {
    pos := Nat.one_pos
    kind_root := rfl
    parent_root := rfl
    parent_of_mem := fun h => absurd h hnot
    lt_of_mem := fun h => absurd h hnot
    exists_mem := fun hpos hlt => absurd hlt (Nat.not_lt.2 hpos)
    nodup := fun id => by rw [hchildren]; exact List.nodup_nil
    kind_mem := fun h => absurd h hnot
    single := fun h => absurd h hnot
    isSome_text := fun id => by rw [text?, Model.kind, node_empty]; rfl
    nodup_attributes := fun id => by rw [node_empty]; exact List.nodup_nil }

/-- A document changes nothing about the elements. -/
theorem WellFormed.withDocument {model : Model} (h : model.WellFormed) (document : Option Text) :
    { model with document }.WellFormed :=
  ⟨h.pos, h.kind_root, h.parent_root, h.parent_of_mem, h.lt_of_mem, h.exists_mem, h.nodup,
    h.kind_mem, h.single, h.isSome_text, h.nodup_attributes⟩

end Model

end Retrace
