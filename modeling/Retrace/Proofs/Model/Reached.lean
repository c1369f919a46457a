import Mathlib.Data.List.Count
import Retrace.Fault
import Retrace.Proofs.Model.Splicing

/-!
# Models that are reached by calls

A model is empty at first or is read from a document, and then calls are made on it, each about an
element that is there. A call may be refused; which calls are is said here without the order in
which the checks are made. No call can break the tree, so whatever has been called, the elements
still form one.

## Main definitions

* `Model.attempt`: a call as it is answered, with the reason if it is refused;
* `Model.Refuses`: the calls that a model refuses, and the reason for each;
* `Model.Reached`: the models that calls can lead to.

## Main results

* `Model.attempt_eq_error_iff`: exactly these calls are refused, each for its reason;
* `Model.WellFormed.answer`, `Model.Reached.wellFormed`: a call keeps models well-formed, so all
  models that are reached are;
* `Model.tree_of_reached`: what this means for their elements.
-/

namespace Retrace

namespace Model

variable {model : Model} {parent id : NodeId} {kind : NodeKind} {call : Call} {fault : Fault}

/-! ## Calls that are refused -/

/-- The element that a call is about. -/
def Call.element : Call → NodeId
  | setText id _ => id
  | setAttribute id _ _ => id
  | addChild parent _ => parent

/-- The model after a call, or the reason why the call is refused. -/
def attempt (model : Model) : Call → Except Fault Model
  | .setText id text => (model.setText id text).mapError .edit
  | .setAttribute id name value => .ok (model.setAttribute id name value)
  | .addChild parent kind => ((model.addChild parent kind).mapError .misfit).map Prod.snd

/-- The calls that a model refuses, with the reason. -/
inductive Refuses (model : Model) : Call → Fault → Prop where
  /-- Elements of the kind have no text. -/
  | textless {id : NodeId} {text : Text} : (model.kind id).hasText = false →
    Refuses model (.setText id text) (.edit (.textless (model.kind id).tag))
  /-- Elements of the kind do not stand inside elements of the parent's kind. -/
  | misplaced {parent : NodeId} {kind : NodeKind} : kind ∉ (model.kind parent).childKinds →
    Refuses model (.addChild parent kind) (.misfit (.misplaced kind (model.kind parent)))
  /-- There is an element of the kind inside the parent, and only one may stand there. -/
  | repeated {parent child : NodeId} {kind : NodeKind} : kind ∈ (model.kind parent).childKinds →
    kind.repeats = false → child ∈ (model.node parent).children → model.kind child = kind →
    Refuses model (.addChild parent kind) (.misfit (.repeated kind (model.kind parent)))

/-- A text is refused by an element of a kind that has none. -/
theorem setText_eq_error_iff {text : Text} {error : EditError} :
    model.setText id text = .error error ↔ Refuses model (.setText id text) (.edit error) := by
  unfold setText
  constructor
  · intro h
    split at h
    · cases h
    · rename_i htext
      obtain rfl := Except.error.inj h
      exact .textless (Bool.eq_false_iff.2 htext)
  · rintro ⟨htext⟩
    rw [htext]
    rfl

/-- An element is refused where its kind may not stand, and where it would be the second of a kind
that does not repeat. -/
theorem addChild_eq_error_iff {error : StructureError} :
    model.addChild parent kind = .error error ↔
      Refuses model (.addChild parent kind) (.misfit error) := by
  have hpresent : (!(model.childrenOfKind parent kind).isEmpty) = true ↔
      ∃ child ∈ (model.node parent).children, model.kind child = kind := by
    simp [childrenOfKind]
  unfold addChild refusal?
  dsimp only
  -- The kind has to fit the parent first, and only then it matters which children there are.
  constructor
  · intro h
    split at h
    · rename_i hrefusal
      obtain rfl := Except.error.inj h
      split at hrefusal
      · rename_i hkind
        obtain rfl := Option.some.inj hrefusal
        exact .misplaced hkind
      · rename_i hkind
        split at hrefusal
        · rename_i hrepeated
          obtain rfl := Option.some.inj hrefusal
          obtain ⟨hrepeats, hsome⟩ := Bool.and_eq_true_iff.1 hrepeated
          obtain ⟨child, hchild, heq⟩ := hpresent.1 hsome
          exact .repeated (Decidable.not_not.1 hkind) (by simpa using hrepeats) hchild heq
        · cases hrefusal
    · cases h
  · intro h
    cases h with
    | misplaced hkind => rw [if_pos hkind]
    | repeated hkind hrepeats hchild heq =>
      rw [if_neg (not_not_intro hkind), hrepeats, hpresent.2 ⟨_, hchild, heq⟩]
      rfl

/-- Exactly these calls are refused, each for its reason. -/
theorem attempt_eq_error_iff : model.attempt call = .error fault ↔ Refuses model call fault := by
  cases call with
  | setText id text =>
    rw [attempt, Except.mapError_eq_error]
    simp only [setText_eq_error_iff]
    constructor
    · rintro ⟨error, hrefuses, rfl⟩
      exact hrefuses
    · intro h
      cases h with
      | textless htext => exact ⟨_, .textless htext, rfl⟩
  -- Setting an attribute is refused nowhere.
  | setAttribute id name value => exact iff_of_false nofun nofun
  | addChild parent kind =>
    rw [attempt, Except.map_eq_error, Except.mapError_eq_error]
    simp only [addChild_eq_error_iff]
    constructor
    · rintro ⟨error, hrefuses, rfl⟩
      exact hrefuses
    · intro h
      cases h with
      | misplaced hkind => exact ⟨_, .misplaced hkind, rfl⟩
      | repeated hkind hrepeats hchild heq => exact ⟨_, .repeated hkind hrepeats hchild heq, rfl⟩

/-- A call that is refused leaves the model as it is. -/
theorem answer_eq_getD (model : Model) (call : Call) :
    model.answer call = (model.attempt call).toOption.getD model := by
  cases call with
  | setText id text =>
    unfold answer attempt
    dsimp only
    cases model.setText id text <;> rfl
  | setAttribute id name value => rfl
  | addChild parent kind =>
    unfold answer attempt request
    dsimp only
    cases model.addChild parent kind <;> rfl

/-! ## Calls in a row -/

/-- The models that calls lead to, from the empty model or from one that was read. A call is about
an element that is there. -/
inductive Reached : Model → Prop where
  /-- There is nothing but the root. -/
  | empty : Reached empty
  /-- The model has been read. -/
  | read {text : Text} {model : Model} : Model.read text = .ok model → Reached model
  /-- A call has been made. -/
  | answer {model : Model} {call : Call} : Reached model → call.element < model.size →
    Reached (model.answer call)

/-- A call about an element that is there keeps models well-formed. -/
theorem WellFormed.answer (h : model.WellFormed) (helement : call.element < model.size) :
    (model.answer call).WellFormed := by
  cases call with
  | setText id text =>
    unfold Model.answer
    dsimp only
    split
    · rename_i hset
      exact h.setText hset
    · exact h
  | setAttribute id name value => exact h.setAttribute id name value
  | addChild parent kind =>
    show (model.request parent kind).WellFormed
    unfold request
    split
    · rename_i hadd
      exact h.addChild helement hadd
    · exact h

/-- Whatever has been called, the elements form a tree. -/
theorem Reached.wellFormed (h : Reached model) : model.WellFormed := by
  induction h with
  | empty => exact wellFormed_empty
  | read hread => exact wellFormed_of_read hread
  | answer _ helement ih => exact ih.answer helement

/-- Every element but the root has a place of its own in the tree: one element, added before it,
lists it, once, and is the element that it knows to stand in. -/
theorem WellFormed.exists_parent (h : model.WellFormed) (hpos : 0 < id) (hlt : id < model.size) :
    ∃ parent, (model.node id).parent = some parent ∧ parent < id ∧
      (∀ other, id ∈ (model.node other).children ↔ other = parent) ∧
      (model.node parent).children.count id = 1 ∧
      model.kind id ∈ (model.kind parent).childKinds := by
  obtain ⟨parent, hmem⟩ := h.exists_mem hpos hlt
  have hparent := h.parent_of_mem hmem
  refine ⟨parent, hparent, (h.lt_of_mem hmem).1, fun other => ⟨fun hother => ?_, ?_⟩,
    List.count_eq_one_of_mem (h.nodup parent) hmem, h.kind_mem hmem⟩
  · exact Option.some.inj ((h.parent_of_mem hother).symm.trans hparent)
  · rintro rfl
    exact hmem

/-- Of a kind that does not repeat, there is at most one element inside another one. -/
theorem WellFormed.length_childrenOfKind_le (h : model.WellFormed) (parent : NodeId)
    (hkind : kind.repeats = false) : (model.childrenOfKind parent kind).length ≤ 1 := by
  have hnodup : (model.childrenOfKind parent kind).Nodup := (h.nodup parent).filter _
  have hmem (child : NodeId) (hchild : child ∈ model.childrenOfKind parent kind) :
      child ∈ (model.node parent).children ∧ model.kind child = kind :=
    mem_childrenOfKind.1 hchild
  generalize model.childrenOfKind parent kind = listed at hnodup hmem
  match listed with
  | [] => exact Nat.zero_le 1
  | [_] => exact Nat.le_refl 1
  | first :: second :: later =>
    obtain ⟨hfirst, hkind₁⟩ := hmem first (by simp)
    obtain ⟨hsecond, hkind₂⟩ := hmem second (by simp)
    have heq := h.single hfirst hsecond (hkind₁.trans hkind₂.symm) (hkind₁ ▸ hkind)
    exact absurd heq (List.ne_of_not_mem_cons (List.nodup_cons.1 hnodup).1)

/-- However a model has been reached, its elements form a tree: every element but the root is listed
exactly once, by the element that it knows to stand in, which was added before it and may hold
elements of its kind, of which there is one only if the kind does not repeat. Exactly the elements
of the kinds that hold a text have one, and no attribute is set twice. What is called next is
refused for a reason only, and then the model stays as it is. -/
theorem tree_of_reached (h : Reached model) :
    (∀ id, 0 < id → id < model.size → ∃ parent, (model.node id).parent = some parent ∧
      parent < id ∧ (∀ other, id ∈ (model.node other).children ↔ other = parent) ∧
      (model.node parent).children.count id = 1 ∧
      model.kind id ∈ (model.kind parent).childKinds) ∧
    (root < model.size ∧ (model.node root).parent = none ∧ model.kind root = .nta ∧
      ∀ id, ∀ child ∈ (model.node id).children, root < child ∧ child < model.size) ∧
    (∀ parent kind, kind.repeats = false → (model.childrenOfKind parent kind).length ≤ 1) ∧
    (∀ id, (model.text? id).isSome = (model.kind id).hasText) ∧
    (∀ id, ((model.node id).attributes.map Prod.fst).Nodup) ∧
    ∀ call fault, (model.attempt call = .error fault ↔ Refuses model call fault) ∧
      (Refuses model call fault → model.answer call = model) := by
  have hmodel := h.wellFormed
  refine ⟨fun id hpos hlt => hmodel.exists_parent hpos hlt,
    ⟨hmodel.pos, hmodel.parent_root, hmodel.kind_root, fun id child hchild => ?_⟩,
    fun parent kind hkind => hmodel.length_childrenOfKind_le parent hkind, hmodel.isSome_text,
    hmodel.nodup_attributes, fun call fault => ⟨attempt_eq_error_iff, fun hrefuses => ?_⟩⟩
  · obtain ⟨hlt, hsize⟩ := hmodel.lt_of_mem hchild
    exact ⟨Nat.zero_lt_of_lt hlt, hsize⟩
  · rw [answer_eq_getD, attempt_eq_error_iff.2 hrefuses]
    rfl

/-- Two templates, the first of which has a name. -/
def named : Model :=
  ((((empty.answer (.addChild 0 .template)).answer (.addChild 1 .name)).answer
    (.setText 2 "P".toList)).answer (.addChild 0 .template)).answer (.setText 3 "Q".toList)

theorem reached_named : Reached named :=
  ((((Reached.empty.answer (by decide)).answer (by decide +kernel)).answer
    (by decide +kernel)).answer (by decide +kernel)).answer (by decide +kernel)

/-- A template has no text, and its name is the only one it can have. -/
theorem tree_of_reached_named :
    Reached named ∧ named.size = 4 ∧
      (∀ other, 2 ∈ (named.node other).children ↔ other = 1) ∧
      (named.childrenOfKind 1 .name).length ≤ 1 ∧
      named.attempt (.addChild 1 .name) = .error (.misfit (.repeated .name .template)) ∧
      named.answer (.addChild 1 .name) = named := by
  have hsize : named.size = 4 := by decide +kernel
  obtain ⟨hparents, -, hsingle, -, -, hcalls⟩ := tree_of_reached reached_named
  obtain ⟨parent, hparent, -, hmem, -⟩ := hparents 2 (by decide) (by omega)
  have hnode : (named.node 2).parent = some 1 := by decide +kernel
  obtain rfl := Option.some.inj (hparent.symm.trans hnode)
  obtain ⟨hattempt, hsame⟩ := hcalls (.addChild 1 .name) (.misfit (.repeated .name .template))
  have hrefuses : Refuses named (.addChild 1 .name) (.misfit (.repeated .name .template)) := by
    have hkind : named.kind 1 = .template := by decide +kernel
    rw [← hkind]
    have hname : named.kind 2 = .name := by decide +kernel
    exact .repeated (by decide +kernel) rfl ((hmem 1).2 rfl) hname
  exact ⟨reached_named, hsize, hmem, hsingle 1 .name rfl, hattempt.2 hrefuses, hsame hrefuses⟩

end Model

end Retrace
