import Retrace.Proofs.Model.Detach
import Retrace.Proofs.Model.RoundTrip
import Retrace.Proofs.Phase.Calls

/-!
# Phases about one kind of element

A phase is about one kind of element if its handlers for this kind look at the text of their element
and at no others, and its handlers for other kinds change the state at most (`Phase.About`). Such a
phase does the same to two models of the same shape if the texts of this kind are the same and the
same elements are blocked (`Phase.About.run_eq`). It edits texts of this kind alone, and its
diagnostics are about elements of this kind.

## Main definitions

* `Model.SameShape`: elements of the same kinds stand in the same places;
* `Phase.About`: a phase is about one kind of element;
* `Phase.Settles`: a phase leaves nothing to be edited.
-/

namespace Retrace

/-! ## Models of the same shape -/

/-- Elements of the same kinds stand in the same places of two models. -/
structure Model.SameShape (model other : Model) : Prop where
  /-- There are as many elements. -/
  size_eq : other.size = model.size
  /-- The elements are of the same kinds. -/
  kind_eq : ∀ id, other.kind id = model.kind id
  /-- They stand in the same places. -/
  children_eq : ∀ id, (other.node id).children = (model.node id).children

namespace Model.SameShape

variable {model other third : Model}

theorem symm (h : model.SameShape other) : other.SameShape model :=
  ⟨h.size_eq.symm, fun id => (h.kind_eq id).symm, fun id => (h.children_eq id).symm⟩

theorem trans (h : model.SameShape other) (h' : other.SameShape third) : model.SameShape third :=
  ⟨h'.size_eq.trans h.size_eq, fun id => (h'.kind_eq id).trans (h.kind_eq id),
    fun id => (h'.children_eq id).trans (h.children_eq id)⟩

/-- Editing texts does not change the shape. -/
theorem of_retexts (h : model.Retexts other) : model.SameShape other where
  size_eq := h.size_eq
  kind_eq id := by
    obtain ⟨text, hnode, -⟩ := h.node_eq id
    rw [Model.kind, hnode]
    rfl
  children_eq id := by
    obtain ⟨text, hnode, -⟩ := h.node_eq id
    rw [hnode]

/-- Models that are the same tree are of the same shape. -/
theorem of_detach_eq (h : other.detach = model.detach) : model.SameShape other where
  size_eq := by rw [← size_detach, h, size_detach]
  kind_eq id := by rw [← kind_detach, h, kind_detach]
  children_eq id := by
    have hnode : (other.node id).bare = (model.node id).bare := by
      rw [← node_detach, h, node_detach]
    exact (Node.mk.inj hnode).2.2.1

theorem at_of_at (h : model.SameShape other) {node : NodeId} {path : Path}
    (hat : model.At node path) : other.At node path :=
  hat.congr h.kind_eq h.children_eq

theorem childPaths_eq (h : model.SameShape other) (id : NodeId) (path : Path) :
    other.childPaths id path = model.childPaths id path := by
  simp only [childPaths, childrenOfKind, h.kind_eq, h.children_eq]

theorem traceFrom_eq (h : model.SameShape other) (bound : Nat) (id : NodeId) (path : Path) :
    other.traceFrom bound id path = model.traceFrom bound id path := by
  induction bound generalizing id path with
  | zero => rfl
  | succ bound ih =>
    rw [traceFrom, traceFrom, h.childPaths_eq]
    simp only [ih]

/-- Models of the same shape are walked through in the same way. -/
theorem trace_eq (h : model.SameShape other) : other.trace = model.trace := by
  rw [trace, trace, h.size_eq, h.traceFrom_eq]

end Model.SameShape

/-! ## Handlers -/

variable {σ : Type} {handler : Handler σ}

/-- A handler looks at the text of its element and at no others, and what it has to say is about
this element. -/
structure Handler.IsLocal (handler : Handler σ) : Prop where
  /-- The handler does the same for elements with the same text. -/
  eq_of_text?_eq : ∀ {visit visit' : Visit}, visit'.node = visit.node → visit'.path = visit.path →
    visit'.text? = visit.text? → handler visit' = handler visit
  /-- What it says is about the element. -/
  path_eq : ∀ {visit : Visit} {state state' : σ} {revision? revised? : Option Revision}
    {diagnostics : List Diagnostic}, (handler visit).carryOut visit state revision? =
      ((.ok diagnostics, state'), revised?) →
    ∀ diagnostic ∈ diagnostics, diagnostic.path = visit.address

/-- The handler that changes the state and does nothing else. -/
def Handler.changing (change : σ → σ) : Handler σ := fun _ => do
  modify change
  return []

@[simp] theorem Handler.carryOut_changing (change : σ → σ) (visit : Visit) (state : σ)
    (revision? : Option Revision) :
    (changing change visit).carryOut visit state revision? =
      ((.ok [], change state), revision?) :=
  rfl

/-! ## Phases -/

namespace Phase

variable {phase : Phase σ} {kind : NodeKind} {model other : Model} {blocked blocked' : List String}
  {outcome : Outcome} {node : NodeId} {path : Path}

/-- The handlers of a phase for one kind of element are local, and those for other kinds change the
state at most. -/
structure About (phase : Phase σ) (kind : NodeKind) : Prop where
  /-- Handlers for the kind look at the text of their element only. -/
  isLocal : ∀ registration ∈ phase.enter ++ phase.leave, registration.kind = kind →
    registration.handler.IsLocal
  /-- Handlers for other kinds make no edits and say nothing. -/
  exists_changing : ∀ registration ∈ phase.enter ++ phase.leave, registration.kind ≠ kind →
    ∃ change, registration.handler = .changing change

/-- After the edits of a phase were brought into a model, the phase edits nothing more, also if
elements of the kind it is about are blocked. -/
def Settles (phase : Phase σ) (kind : NodeKind) : Prop :=
  ∀ {model after : Model} {outcome later : Outcome} {blocked : List String}, model.WellFormed →
    (phase.run model []).1 = .ok outcome → outcome.layer.commit model = .ok after →
    (∀ {node path}, model.At node path → path.render ∈ blocked →
      ∀ registration ∈ phase.enter ++ phase.leave, registration.kind = model.kind node →
        registration.kind = kind) →
    (phase.run after blocked).1 = .ok later → later.layer = {}

namespace About

/-- A handler makes the same edits in two models with the same texts of the kind. -/
theorem carryOut_eq (h : phase.About kind) {registration : Registration σ}
    (hmem : registration ∈ phase.enter ++ phase.leave) {visit visit' : Visit}
    (hnode : visit'.node = visit.node) (hpath : visit'.path = visit.path)
    (htext : registration.kind = kind → visit'.text? = visit.text?) (state : σ)
    (revision? : Option Revision) :
    (registration.handler visit').carryOut visit' state revision? =
      (registration.handler visit).carryOut visit state revision? := by
  by_cases hkind : registration.kind = kind
  · have hsame : visit'.address = visit.address := by rw [Visit.address, hpath, Visit.address]
    rw [(h.isLocal registration hmem hkind).eq_of_text?_eq hnode hpath (htext hkind)]
    unfold Handling.carryOut
    rw [htext hkind, hsame]
  · obtain ⟨change, hchanging⟩ := h.exists_changing registration hmem hkind
    rw [hchanging]
    rfl

/-- A handler is called in the same way in two models with the same texts of the kind. -/
theorem call_eq (h : phase.About kind) {registration : Registration σ}
    (hmem : registration ∈ phase.enter ++ phase.leave) {visit visit' : Visit}
    (hnode : visit'.node = visit.node) (hpath : visit'.path = visit.path)
    (htext : registration.kind = kind → visit'.text? = visit.text?) :
    call visit' registration.handler = call visit registration.handler := by
  unfold call
  simp only [h.carryOut_eq hmem hnode hpath htext, Visit.address, hpath, hnode]

/-- The handlers among some that fit are called in the same way for an element of the same kind,
whose text is the same if the phase is about this kind. -/
theorem callAll_eq (h : phase.About kind) {registrations : List (Registration σ)}
    (hregistrations : ∀ registration ∈ registrations, registration ∈ phase.enter ++ phase.leave)
    (hsame : other.kind node = model.kind node)
    (htext : model.kind node = kind → other.text? node = model.text? node)
    (hblocked : ∀ registration ∈ phase.enter ++ phase.leave,
      registration.kind = model.kind node → (path.render ∈ blocked' ↔ path.render ∈ blocked)) :
    callAll other blocked' registrations node path =
      callAll model blocked registrations node path := by
  unfold callAll
  rw [hsame]
  dsimp only
  have hfitting : ∀ registration ∈ registrations.filter (·.fits (model.kind node) path),
      registration ∈ phase.enter ++ phase.leave ∧ registration.kind = model.kind node := by
    intro registration hmem
    obtain ⟨hmem, hfits⟩ := List.mem_filter.1 hmem
    exact ⟨hregistrations registration hmem, Registration.kind_eq_of_fits hfits⟩
  cases hfiltered : registrations.filter (·.fits (model.kind node) path) with
  | nil => rfl
  | cons first later =>
    rw [hfiltered] at hfitting
    obtain ⟨hfirst, hkind⟩ := hfitting first List.mem_cons_self
    have hcontains : blocked'.contains path.render = blocked.contains path.render := by
      rw [Bool.eq_iff_iff, List.contains_iff_mem, List.contains_iff_mem]
      exact hblocked first hfirst hkind
    rw [hcontains]
    split
    · rfl
    · refine Model.forM_congr fun registration hmem => ?_
      obtain ⟨hmem, hkind⟩ := hfitting registration hmem
      exact h.call_eq hmem rfl rfl fun heq => htext (hkind.symm.trans heq)

/-- A phase about one kind does the same to models of the same shape with the same texts of this
kind, if the same elements are blocked among those of the kinds for which there are handlers. -/
theorem run_eq (h : phase.About kind) (hshape : model.SameShape other)
    (htext : ∀ {node path}, model.At node path → model.kind node = kind →
      other.text? node = model.text? node)
    (hblocked : ∀ {node path}, model.At node path →
      ∀ registration ∈ phase.enter ++ phase.leave, registration.kind = model.kind node →
        (path.render ∈ blocked' ↔ path.render ∈ blocked)) :
    phase.run other blocked' = phase.run model blocked := by
  have hwalk : other.walkScoped (callAll other blocked' phase.enter)
      (callAll other blocked' phase.leave) =
        model.walkScoped (callAll model blocked phase.enter)
          (callAll model blocked phase.leave) := by
    rw [Model.walkScoped_eq_forM_trace, Model.walkScoped_eq_forM_trace, hshape.trace_eq]
    refine Model.forM_congr fun step hstep => ?_
    have hat := Model.at_of_mem_trace hstep
    cases step with
    | enter node path =>
      exact h.callAll_eq (fun _ => List.mem_append_left _) (hshape.kind_eq node) (htext hat)
        (hblocked hat)
    | leave node path =>
      exact h.callAll_eq (fun _ => List.mem_append_right _) (hshape.kind_eq node) (htext hat)
        (hblocked hat)
  unfold run
  rw [hwalk]

/-- What an answer says is about the element of the call, which is of this kind. -/
theorem kind_and_path_of_mem_diagnostics (h : phase.About kind) {progress reached : Progress σ}
    {replies : List (Reply σ)} (hcourse : Course progress replies reached) {reply : Reply σ}
    (hreply : reply ∈ replies) (hcall : reply.made ∈ phase.calls model blocked)
    {diagnostic : Diagnostic} (hdiagnostic : diagnostic ∈ reply.diagnostics) :
    model.kind reply.made.visit.node = kind ∧ diagnostic.path = reply.made.visit.address := by
  obtain ⟨registration, hmem, hhandler, hkind⟩ := exists_registration_of_mem_calls hcall
  obtain ⟨middle, state, revision?, hcarried⟩ := hcourse.exists_carried hreply
  rw [carried, ← hhandler] at hcarried
  by_cases heq : registration.kind = kind
  · exact ⟨hkind.symm.trans heq,
      (h.isLocal registration hmem heq).path_eq hcarried diagnostic hdiagnostic⟩
  · obtain ⟨change, hchanging⟩ := h.exists_changing registration hmem heq
    rw [hchanging, Handler.carryOut_changing] at hcarried
    rw [← Except.ok.inj (Prod.mk.inj (Prod.mk.inj hcarried).1).1] at hdiagnostic
    cases hdiagnostic

/-- What a phase about one kind says is about elements of this kind. -/
theorem exists_at_of_mem_diagnostics (h : phase.About kind)
    (hrun : (phase.run model blocked).1 = .ok outcome) {diagnostic : Diagnostic}
    (hdiagnostic : diagnostic ∈ outcome.diagnostics) :
    ∃ node path, model.At node path ∧ model.kind node = kind ∧ path.render = diagnostic.path := by
  obtain ⟨replies, state, hcourse, hmade, hdiagnostics⟩ := exists_course_of_run hrun
  rw [hdiagnostics] at hdiagnostic
  obtain ⟨reply, hreply, hdiagnostic⟩ := List.mem_flatMap.1 hdiagnostic
  have hcall : reply.made ∈ phase.calls model blocked := hmade ▸ List.mem_map_of_mem hreply
  obtain ⟨hkind, hpath⟩ := h.kind_and_path_of_mem_diagnostics hcourse hreply hcall hdiagnostic
  exact ⟨_, _, (at_of_mem_calls hcall).2.1, hkind, hpath.symm⟩

/-- If one handler is called for an element, it begins with the text as it was, its edits are those
that the phase makes there, and what it says is all that is said about the element. -/
theorem exists_reply_of_run (h : phase.About kind) (hmodel : model.WellFormed)
    (hrun : (phase.run model blocked).1 = .ok outcome) (hat : model.At node path)
    (hblocked : path.render ∉ blocked) {handler : Handler σ}
    (hregistered : registered model phase.enter node path ++
      registered model phase.leave node path = [⟨⟨model, node, path⟩, handler⟩]) :
    ∃ front back progress diagnostics state,
      phase.calls model blocked = front ++ ⟨⟨model, node, path⟩, handler⟩ :: back ∧
      Answered ⟨phase.start, {}⟩ front progress ∧
      (handler ⟨model, node, path⟩).carryOut ⟨model, node, path⟩ progress.state none =
        ((.ok diagnostics, state), outcome.layer.get? path.render) ∧
      outcome.diagnostics.filter (·.path = path.render) = diagnostics := by
  obtain ⟨replies, later, progress, last, diagnostics, state, hcalls, hapart, hwhole, hcourse,
    hnone, hcarried⟩ := exists_carried_of_run hmodel hrun hat hblocked hregistered
  have hfresh : progress.outcome.layer.get? (Visit.address ⟨model, node, path⟩) = none := hnone
  rw [carried, hfresh] at hcarried
  refine ⟨_, _, progress, diagnostics, state, hcalls, ⟨replies, hcourse, rfl⟩, hcarried, ?_⟩
  have hpath : ∀ reply ∈ replies ++ ⟨⟨⟨model, node, path⟩, handler⟩, diagnostics⟩ :: later,
      ∀ diagnostic ∈ reply.diagnostics, diagnostic.path = reply.made.visit.address := by
    intro reply hreply diagnostic hdiagnostic
    have hcall := List.mem_map_of_mem (f := Reply.made) hreply
    rw [List.map_append, List.map_cons, ← hcalls] at hcall
    exact (h.kind_and_path_of_mem_diagnostics hwhole hreply hcall hdiagnostic).2
  rw [hwhole.diagnostics_eq, List.nil_append, List.flatMap_append, List.flatMap_cons,
    List.filter_append, List.filter_append]
  -- The other calls are about other elements.
  have hothers {others : List (Reply σ)} (hsub : ∀ reply ∈ others, reply ∈ replies ++ later) :
      (others.flatMap Reply.diagnostics).filter (·.path = path.render) = [] := by
    refine List.filter_eq_nil_iff.2 fun diagnostic hdiagnostic => ?_
    obtain ⟨reply, hreply, hdiagnostic⟩ := List.mem_flatMap.1 hdiagnostic
    have hmem : reply ∈ replies ++ ⟨⟨⟨model, node, path⟩, handler⟩, diagnostics⟩ :: later := by
      have hor := hsub reply hreply
      simp only [List.mem_append, List.mem_cons] at hor ⊢
      exact hor.imp_right Or.inr
    rw [decide_eq_true_eq, hpath reply hmem diagnostic hdiagnostic]
    exact hapart reply (hsub reply hreply)
  rw [hothers fun reply hreply => List.mem_append_left _ hreply,
    hothers fun reply hreply => List.mem_append_right _ hreply, List.nil_append, List.append_nil]
  refine List.filter_eq_self.2 fun diagnostic hdiagnostic => ?_
  rw [decide_eq_true_eq]
  exact hpath _ (List.mem_append_right _ List.mem_cons_self) diagnostic hdiagnostic

/-- Calls that are answered make no edits in elements of other kinds. -/
theorem get?_eq_none_of_course (h : phase.About kind) (hmodel : model.WellFormed)
    (hat : model.At node path) (hkind : model.kind node ≠ kind) {progress reached : Progress σ}
    {replies : List (Reply σ)} (hcourse : Course progress replies reached)
    (hcalls : ∀ reply ∈ replies, reply.made ∈ phase.calls model blocked)
    (hnone : progress.outcome.layer.get? path.render = none) :
    reached.outcome.layer.get? path.render = none := by
  induction hcourse with
  | nil => exact hnone
  | @cons progress reached made diagnostics state revision? later hcarried hlater ih =>
    obtain ⟨hmade, hrest⟩ := List.forall_mem_cons.1 hcalls
    refine ih hrest ?_
    by_cases hhere : made.visit.address = path.render
    · -- The handler is one for another kind, so it changes the state at most.
      obtain ⟨registration, hregistered, hhandler, hkind'⟩ := exists_registration_of_mem_calls hmade
      obtain ⟨-, hthere, -⟩ := at_of_mem_calls hmade
      rw [hthere.node_unique_of_render hmodel hat hhere] at hkind'
      obtain ⟨change, hchanging⟩ := h.exists_changing registration hregistered
        (fun heq => hkind (hkind'.symm.trans heq))
      rw [carried, ← hhandler, hchanging, Handler.carryOut_changing] at hcarried
      obtain rfl := (Prod.mk.inj hcarried).2
      rw [hhere, hnone]
      exact hnone
    · cases revision? with
      | none => exact hnone
      | some revision => exact (Layer.get?_put_of_ne (Ne.symm hhere) _).trans hnone

/-- A phase about one kind edits texts of elements of this kind alone. -/
theorem exists_at_of_get? (h : phase.About kind) (hmodel : model.WellFormed)
    (hrun : (phase.run model blocked).1 = .ok outcome) {address : String} {revision : Revision}
    (hget : outcome.layer.get? address = some revision) :
    ∃ node path, model.At node path ∧ model.kind node = kind ∧ path.render = address := by
  obtain ⟨revised, hmem, -⟩ := Layer.exists_mem_of_get? hget
  obtain ⟨path, -, rfl, hat, -⟩ := (run_describes hmodel hrun).entry hmem
  refine ⟨revised.node, path, hat, by_contra fun hkind => ?_, rfl⟩
  obtain ⟨replies, state, hcourse, hmade, -⟩ := exists_course_of_run hrun
  have hget' := h.get?_eq_none_of_course hmodel hat hkind hcourse
    (fun reply hreply => hmade ▸ List.mem_map_of_mem hreply) rfl
  rw [hget] at hget'
  cases hget'

end About

end Phase

end Retrace
