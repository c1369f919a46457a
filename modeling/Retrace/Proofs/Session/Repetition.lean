import Retrace.Proofs.Phase.About
import Retrace.Proofs.Session.Composition

/-!
# Phases in any order and any number of times

Suppose each of some phases is about one kind of element, and none looks at elements of the kinds
that the others are about. Then it does not matter what has been run before a phase: the texts it
looks at are those of the first model, and none of its elements is blocked. If the phases leave
nothing to be edited, running one of them again changes nothing either, because blocking more
elements does not make it edit any. So what becomes of the texts of a kind, and how diagnostics
about them are moved back, is known as soon as the phase has been run at all.

## Main definitions

* `Pass.settled`: what a phase alone makes of a model;
* `Pass.KeepApart`: phases about different kinds;
* `Session.Settled`: phases for some kinds have nothing left to be edited;
* `Session.Visited`: what a run has done to a model, by the kinds of the phases so far.

## Main results

* `Session.Visited.exists_passAll`: lists of such phases can be run;
* `Session.Visited.model_eq`, `Session.Visited.retraceThrough_eq`: the kinds of the phases determine
  the model and how diagnostics are moved back;
* `Session.Settled.exists_passAll`: repeated phases leave a model alone.
-/

namespace Retrace

/-! ## Phases that keep apart -/

namespace Pass

/-- What a pass gives for a model in which nothing is blocked. -/
def alone (pass : Pass) (model : Model) : Outcome :=
  (pass.run model []).toOption.getD {}

/-- The model with the edits that a pass makes if nothing is blocked. -/
def settled (pass : Pass) (model : Model) : Model :=
  ((pass.alone model).layer.commit model).toOption.getD model

variable {pass : Pass} {model : Model}

theorem run_eq_ok_alone (hreliable : pass.phase.Reliable) (hmodel : model.WellFormed) :
    (pass.phase.run model []).1 = .ok (pass.alone model) := by
  obtain ⟨outcome, houtcome⟩ := hreliable.exists_run hmodel []
  rw [alone, run, houtcome]
  rfl

theorem commit_eq_ok_settled (hreliable : pass.phase.Reliable) (hmodel : model.WellFormed) :
    (pass.alone model).layer.commit model = .ok (pass.settled model) := by
  have hdescribes := Phase.run_describes hmodel (run_eq_ok_alone hreliable hmodel)
  obtain ⟨after, hafter⟩ := hdescribes.exists_commit hmodel
  rw [settled, hafter]
  rfl

/-- A pass about one kind edits texts of elements of this kind alone. -/
theorem get?_alone_eq_none {kind : NodeKind} (habout : pass.phase.About kind)
    (hreliable : pass.phase.Reliable) (hmodel : model.WellFormed) {address : String}
    (hother : ∀ {node path}, model.At node path → model.kind node = kind →
      path.render ≠ address) : (pass.alone model).layer.get? address = none := by
  by_contra hsome
  obtain ⟨revision, hget⟩ := Option.ne_none_iff_exists'.1 hsome
  obtain ⟨node, path, hat, hkind, hrender⟩ :=
    habout.exists_at_of_get? hmodel (run_eq_ok_alone hreliable hmodel) hget
  exact hother hat hkind hrender

/-- For each kind there is a pass that is about it, and no pass looks at elements of a kind that
another one is about. Each pass leaves nothing to be edited. -/
structure KeepApart (passOf : NodeKind → Pass) (kinds : List NodeKind) : Prop where
  /-- The passes are about their kinds. -/
  about : ∀ kind ∈ kinds, (passOf kind).phase.About kind
  /-- They leave nothing to be edited. -/
  settles : ∀ kind ∈ kinds, (passOf kind).phase.Settles kind
  /-- Their handlers do not fail. -/
  reliable : ∀ kind ∈ kinds, (passOf kind).phase.Reliable
  /-- No handler is called for elements of a kind that another pass is about. -/
  apart : ∀ kind ∈ kinds, ∀ registration ∈ (passOf kind).phase.enter ++ (passOf kind).phase.leave,
    registration.kind ∈ kinds → registration.kind = kind

end Pass

namespace Session

open Pass

variable {passOf : NodeKind → Pass} {kinds done done' : List NodeKind} {first : Model}

/-- The texts of some kinds are as their passes left them. -/
structure Settled (passOf : NodeKind → Pass) (kinds done : List NodeKind) (first model : Model)
    (blocked : List String) : Prop where
  /-- The elements are those of the first model. -/
  shape : first.SameShape model
  /-- Their texts are as the passes left them. -/
  text?_eq : ∀ {node path}, first.At node path → first.kind node ∈ done →
    model.text? node = ((passOf (first.kind node)).settled first).text? node
  /-- Only elements of kinds that passes are about are blocked. -/
  blocked_kind : ∀ address ∈ blocked, ∃ node path, first.At node path ∧ first.kind node ∈ kinds ∧
    path.render = address

/-- A pass that is repeated makes no edits. -/
theorem Settled.exists_run (hpasses : KeepApart passOf kinds) (hfirst : first.WellFormed)
    {model : Model} {blocked : List String} (h : Settled passOf kinds done first model blocked)
    (hmodel : model.WellFormed) (hdone : done ⊆ kinds) {kind : NodeKind} (hkind : kind ∈ done) :
    ∃ outcome, (passOf kind).run model blocked = .ok outcome ∧ outcome.layer = {} ∧
      ∀ diagnostic ∈ outcome.diagnostics, ∃ node path, first.At node path ∧
        first.kind node = kind ∧ path.render = diagnostic.path := by
  have habout := hpasses.about kind (hdone hkind)
  have hreliable := hpasses.reliable kind (hdone hkind)
  have halone := run_eq_ok_alone hreliable hfirst
  have hcommit := commit_eq_ok_settled hreliable hfirst
  have hcommitted := (Phase.run_describes hfirst halone).committed hfirst hcommit
  obtain ⟨outcome, houtcome⟩ := hreliable.exists_run hmodel blocked
  have hback {node : NodeId} {path : Path} (hat : model.At node path) : first.At node path :=
    h.shape.symm.at_of_at hat
  refine ⟨outcome, houtcome, ?_, fun diagnostic hdiagnostic => ?_⟩
  · -- The pass does the same as for the model that it left behind.
    have hshape : ((passOf kind).settled first).SameShape model :=
      (Model.SameShape.of_retexts (Layer.retexts_of_commitAll hfirst hcommit)).symm.trans h.shape
    have hsame : (passOf kind).phase.run model blocked =
        (passOf kind).phase.run ((passOf kind).settled first) blocked := by
      refine habout.run_eq hshape (fun hat hnode => ?_) fun _ _ _ _ => Iff.rfl
      rw [hcommitted.kind_eq] at hnode
      rw [h.text?_eq (hback (hshape.at_of_at hat)) (hnode ▸ hkind), hnode]
    rw [hsame] at houtcome
    refine hpasses.settles kind (hdone hkind) hfirst halone hcommit ?_ houtcome
    intro node path hat hmem registration hregistration hnode
    obtain ⟨node', path', hat', hkind', hrender⟩ := h.blocked_kind _ hmem
    rw [hat'.node_unique_of_render hfirst hat hrender] at hkind'
    exact hpasses.apart kind (hdone hkind) registration hregistration (hnode ▸ hkind')
  · obtain ⟨node, path, hat, hnode, hrender⟩ :=
      habout.exists_at_of_mem_diagnostics houtcome hdiagnostic
    exact ⟨node, path, hback hat, (h.shape.kind_eq node).symm.trans hnode, hrender⟩

/-- An element is blocked behind a pass if a diagnostic of the pass says so or if it was blocked
before. -/
theorem mem_blocked_add {run : Run} {origin : Origin} {model : Model} {outcome : Outcome}
    {address : String} : address ∈ (run.add origin model outcome).blocked ↔
      (∃ diagnostic ∈ outcome.diagnostics, diagnostic.isUnrecoverable = true ∧
        diagnostic.path = address) ∨ address ∈ run.blocked := by
  simp only [Run.add, List.mem_append, List.mem_map, List.mem_filter, and_assoc]

/-- Where a repeated pass is run, the model stays as it is. -/
theorem Settled.exists_pass (hpasses : KeepApart passOf kinds) (hfirst : first.WellFormed)
    {run : Run} (h : Settled passOf kinds done first run.model run.blocked)
    (hmodel : run.model.WellFormed) (hdone : done ⊆ kinds) {kind : NodeKind} (hkind : kind ∈ done)
    (id : String) :
    ∃ next, run.pass id (passOf kind) = .ok next ∧ next.model = run.model ∧
      next.layers = {} :: run.layers ∧
      ∀ address ∈ next.blocked, (∃ node path, first.At node path ∧ first.kind node ∈ done ∧
        path.render = address) ∨ address ∈ run.blocked := by
  obtain ⟨outcome, houtcome, hempty, hpaths⟩ := h.exists_run hpasses hfirst hmodel hdone hkind
  have hcommit : outcome.layer.commit run.model = .ok run.model := by
    rw [hempty]
    rfl
  refine ⟨run.add ⟨id, (passOf kind).name, run.sequence⟩ run.model outcome, ?_, rfl,
    congrArg (· :: run.layers) hempty, fun address haddress => ?_⟩
  · rw [Run.pass, houtcome]
    dsimp only
    rw [hcommit]
  · refine (mem_blocked_add.1 haddress).imp_left ?_
    rintro ⟨diagnostic, hdiagnostic, -, rfl⟩
    obtain ⟨node, path, hat, rfl, hrender⟩ := hpaths diagnostic hdiagnostic
    exact ⟨node, path, hat, hkind, hrender⟩

/-- Passes that are all repeated leave the model alone, and diagnostics are moved back as before. -/
theorem Settled.exists_passAll (hpasses : KeepApart passOf kinds) (hfirst : first.WellFormed)
    {run : Run} (h : Settled passOf kinds done first run.model run.blocked)
    (hmodel : run.model.WellFormed) (hdone : done ⊆ kinds) {entries : List (String × Pass)}
    {visits : List NodeKind} (hentries : entries.map Prod.snd = visits.map passOf)
    (hvisits : visits ⊆ done) :
    ∃ result, Run.passAll entries run = (result, none) ∧ result.model = run.model ∧
      ∀ diagnostic, retraceThrough result.layers diagnostic =
        retraceThrough run.layers diagnostic := by
  induction visits generalizing entries run with
  | nil =>
    obtain rfl := List.map_eq_nil_iff.1 hentries
    exact ⟨run, rfl, rfl, fun _ => rfl⟩
  | cons kind later ih =>
    obtain ⟨⟨id, pass⟩, others, rfl, rfl, hothers⟩ := List.map_eq_cons_iff.1 hentries
    obtain ⟨hkind, hlater⟩ := List.cons_subset.1 hvisits
    obtain ⟨next, hnext, hsame, hlayers, hblocked⟩ :=
      h.exists_pass hpasses hfirst hmodel hdone hkind id
    have hsettled : Settled passOf kinds done first next.model next.blocked := by
      rw [hsame]
      refine ⟨h.shape, h.text?_eq, fun address haddress => ?_⟩
      rcases hblocked address haddress with ⟨node, path, hat, hmem, hrender⟩ | haddress
      · exact ⟨node, path, hat, hdone hmem, hrender⟩
      · exact h.blocked_kind address haddress
    obtain ⟨result, hresult, hmodelEq, hretrace⟩ := ih hsettled (hsame ▸ hmodel) hothers hlater
    refine ⟨result, ?_, hmodelEq.trans hsame, fun diagnostic => ?_⟩
    · rw [Run.passAll, hnext]
      exact hresult
    · -- The empty layer moves every diagnostic to where it is.
      rw [hretrace, hlayers]
      rfl

/-- A run that began with the model `first`, behind passes about the kinds `done`. -/
structure Visited (passOf : NodeKind → Pass) (done : List NodeKind) (first : Model) (run : Run) :
    Prop where
  /-- The layers lead from the first model to the latest. -/
  chain : Chain first run.layers run.model
  /-- The texts of these kinds are as the passes leave them if nothing is blocked. -/
  text?_eq : ∀ {node path}, first.At node path → first.kind node ∈ done →
    run.model.text? node = ((passOf (first.kind node)).settled first).text? node
  /-- All other texts are as they were. -/
  text?_eq_first : ∀ {node path}, first.At node path → first.kind node ∉ done →
    run.model.text? node = first.text? node
  /-- Diagnostics about elements of these kinds are moved back through one layer. -/
  retrace_eq : ∀ {node path}, first.At node path → first.kind node ∈ done →
    ∀ diagnostic : Diagnostic, diagnostic.path = path.render →
      retraceThrough run.layers diagnostic =
        ((passOf (first.kind node)).alone first).layer.retrace? diagnostic
  /-- All others stay as they are. -/
  retrace_eq_some : ∀ diagnostic : Diagnostic, (∀ {node path}, first.At node path →
    first.kind node ∈ done → diagnostic.path ≠ path.render) →
      retraceThrough run.layers diagnostic = some diagnostic
  /-- Only elements of these kinds are blocked. -/
  blocked_kind : ∀ address ∈ run.blocked, ∃ node path, first.At node path ∧
    first.kind node ∈ done ∧ path.render = address

namespace Visited

variable {run : Run}

/-- At first no pass has been run. -/
theorem start (passOf : NodeKind → Pass) (first : Model) :
    Visited passOf [] first { model := first } where
  chain := .nil
  text?_eq _ h := (List.not_mem_nil h).elim
  text?_eq_first _ _ := rfl
  retrace_eq _ h := (List.not_mem_nil h).elim
  retrace_eq_some _ _ := rfl
  blocked_kind _ h := (List.not_mem_nil h).elim

/-- It does not matter in which order the kinds are listed. -/
theorem congr (h : Visited passOf done first run) (hsame : ∀ kind, kind ∈ done' ↔ kind ∈ done) :
    Visited passOf done' first run where
  chain := h.chain
  text?_eq hat hkind := h.text?_eq hat ((hsame _).1 hkind)
  text?_eq_first hat hkind := h.text?_eq_first hat (mt (hsame _).2 hkind)
  retrace_eq hat hkind := h.retrace_eq hat ((hsame _).1 hkind)
  retrace_eq_some diagnostic hother := h.retrace_eq_some diagnostic fun hat hkind =>
    hother hat ((hsame _).2 hkind)
  blocked_kind address haddress := by
    obtain ⟨node, path, hat, hkind, hrender⟩ := h.blocked_kind address haddress
    exact ⟨node, path, hat, (hsame _).2 hkind, hrender⟩

theorem shape (h : Visited passOf done first run) (hfirst : first.WellFormed) :
    first.SameShape run.model :=
  .of_retexts (h.chain.retexts hfirst)

theorem settled (h : Visited passOf done first run) (hfirst : first.WellFormed)
    (hdone : done ⊆ kinds) : Settled passOf kinds done first run.model run.blocked where
  shape := h.shape hfirst
  text?_eq := h.text?_eq
  blocked_kind address haddress := by
    obtain ⟨node, path, hat, hkind, hrender⟩ := h.blocked_kind address haddress
    exact ⟨node, path, hat, hdone hkind, hrender⟩

/-- A pass that was run before changes nothing. -/
theorem pass_again (h : Visited passOf done first run) (hpasses : KeepApart passOf kinds)
    (hfirst : first.WellFormed) (hdone : done ⊆ kinds) {kind : NodeKind} (hkind : kind ∈ done)
    (id : String) :
    ∃ next, run.pass id (passOf kind) = .ok next ∧ Visited passOf done first next := by
  obtain ⟨next, hnext, hmodel, hlayers, hblocked⟩ :=
    (h.settled hfirst hdone).exists_pass hpasses hfirst (h.chain.wellFormed hfirst) hdone hkind id
  -- The layer of the pass is empty, so diagnostics go through it unchanged.
  have hretrace (diagnostic : Diagnostic) :
      retraceThrough next.layers diagnostic = retraceThrough run.layers diagnostic := by
    rw [hlayers]
    rfl
  refine ⟨next, hnext, ?_⟩
  exact {
    chain := by
      rw [hmodel, hlayers]
      exact h.chain.cons (Layer.describes_empty _) rfl
    text?_eq := by
      rw [hmodel]
      exact h.text?_eq
    text?_eq_first := by
      rw [hmodel]
      exact h.text?_eq_first
    retrace_eq := fun hat hmem diagnostic hpath =>
      (hretrace diagnostic).trans (h.retrace_eq hat hmem diagnostic hpath)
    retrace_eq_some := fun diagnostic hother =>
      (hretrace diagnostic).trans (h.retrace_eq_some diagnostic hother)
    blocked_kind := fun address haddress =>
      (hblocked address haddress).elim (fun hat => hat) (h.blocked_kind address) }

/-- A pass that was not run before does the same as if it were run alone: nothing that it looks at
has changed, and none of its elements is blocked. -/
theorem run_eq_alone (h : Visited passOf done first run) (hpasses : KeepApart passOf kinds)
    (hfirst : first.WellFormed) (hdone : done ⊆ kinds) {kind : NodeKind} (hkind : kind ∈ kinds)
    (hnew : kind ∉ done) :
    (passOf kind).run run.model run.blocked = .ok ((passOf kind).alone first) := by
  have hsame : (passOf kind).phase.run run.model run.blocked =
      (passOf kind).phase.run first [] := by
    refine (hpasses.about kind hkind).run_eq (h.shape hfirst) (fun hat hnode => ?_)
      fun hat registration hregistration hnode => ?_
    · subst hnode
      exact h.text?_eq_first hat hnew
    · refine iff_of_false (fun hmem => ?_) List.not_mem_nil
      obtain ⟨node', path', hat', hkind', hrender⟩ := h.blocked_kind _ hmem
      rw [hat'.node_unique_of_render hfirst hat hrender, ← hnode] at hkind'
      rw [hpasses.apart kind hkind registration hregistration (hdone hkind')] at hkind'
      exact hnew hkind'
  rw [Pass.run, hsame, run_eq_ok_alone (hpasses.reliable kind hkind) hfirst]

/-- The layer of such a pass comes in front of the others. -/
theorem add_new (h : Visited passOf done first run) (hfirst : first.WellFormed) {kind : NodeKind}
    (habout : (passOf kind).phase.About kind) (hreliable : (passOf kind).phase.Reliable)
    (hnew : kind ∉ done)
    (hdescribes : ((passOf kind).alone first).layer.Describes run.model) {after : Model}
    (hafter : ((passOf kind).alone first).layer.commit run.model = .ok after) (origin : Origin) :
    Visited passOf (kind :: done) first (run.add origin after ((passOf kind).alone first)) := by
  have hmodel := h.chain.wellFormed hfirst
  have hshape := h.shape hfirst
  have halone := run_eq_ok_alone hreliable hfirst
  have hnone {node : NodeId} {path : Path} (hat : first.At node path)
      (hother : first.kind node ≠ kind) :
      ((passOf kind).alone first).layer.get? path.render = none :=
    get?_alone_eq_none habout hreliable hfirst fun {node' path'} hat' hkind hrender =>
      hother (by rw [← hat'.node_unique_of_render hfirst hat hrender, hkind])
  have htext {node : NodeId} {path : Path} (hat : first.At node path)
      (hother : first.kind node ≠ kind) : after.text? node = run.model.text? node :=
    hdescribes.text?_of_get?_eq_none hmodel hafter (hshape.at_of_at hat) (hnone hat hother)
  have hlayers (diagnostic : Diagnostic) :
      retraceThrough (run.add origin after ((passOf kind).alone first)).layers diagnostic =
        (((passOf kind).alone first).layer.retrace? diagnostic).bind
          (retraceThrough run.layers) :=
    rfl
  exact {
    chain := h.chain.cons hdescribes hafter
    text?_eq := by
      intro node path hat hmem
      by_cases hnode : first.kind node = kind
      · subst hnode
        exact (Phase.run_describes hfirst halone).text?_congr hfirst hmodel hdescribes
          (commit_eq_ok_settled hreliable hfirst) hafter hat (hshape.at_of_at hat)
          (h.text?_eq_first hat hnew)
      · exact (htext hat hnode).trans (h.text?_eq hat (List.mem_of_ne_of_mem hnode hmem))
    text?_eq_first := by
      intro node path hat hmem
      rw [List.mem_cons, not_or] at hmem
      exact (htext hat hmem.1).trans (h.text?_eq_first hat hmem.2)
    retrace_eq := by
      intro node path hat hmem diagnostic hpath
      rw [hlayers]
      by_cases hnode : first.kind node = kind
      · rw [hnode]
        cases htraced : ((passOf kind).alone first).layer.retrace? diagnostic with
        | none => rfl
        | some traced =>
          -- The layers behind have nothing at this path.
          refine h.retrace_eq_some traced fun {node' path'} hat' hkind' hrender => hnew ?_
          rw [Layer.path_of_retrace? htraced, hpath] at hrender
          rwa [← hat.node_unique_of_render hfirst hat' hrender, hnode] at hkind'
      · rw [Layer.retrace?_of_get?_eq_none (hpath ▸ hnone hat hnode)]
        exact h.retrace_eq hat (List.mem_of_ne_of_mem hnode hmem) diagnostic hpath
    retrace_eq_some := by
      intro diagnostic hother
      rw [hlayers, Layer.retrace?_of_get?_eq_none]
      · exact h.retrace_eq_some diagnostic fun hat hmem =>
          hother hat (List.mem_cons_of_mem _ hmem)
      · exact get?_alone_eq_none habout hreliable hfirst fun hat hkind hrender =>
          hother hat (hkind ▸ List.mem_cons_self) hrender.symm
    blocked_kind := by
      intro address haddress
      rcases mem_blocked_add.1 haddress with ⟨diagnostic, hdiagnostic, -, rfl⟩ | haddress
      · obtain ⟨node, path, hat, hnode, hrender⟩ :=
          habout.exists_at_of_mem_diagnostics halone hdiagnostic
        exact ⟨node, path, hat, hnode ▸ List.mem_cons_self, hrender⟩
      · obtain ⟨node, path, hat, hmem, hrender⟩ := h.blocked_kind address haddress
        exact ⟨node, path, hat, List.mem_cons_of_mem _ hmem, hrender⟩ }

/-- A pass about any of the kinds can be run. -/
theorem exists_pass (h : Visited passOf done first run) (hpasses : KeepApart passOf kinds)
    (hfirst : first.WellFormed) (hdone : done ⊆ kinds) {kind : NodeKind} (hkind : kind ∈ kinds)
    (id : String) :
    ∃ next, run.pass id (passOf kind) = .ok next ∧ Visited passOf (kind :: done) first next := by
  by_cases hmem : kind ∈ done
  · obtain ⟨next, hnext, hvisited⟩ := h.pass_again hpasses hfirst hdone hmem id
    refine ⟨next, hnext, hvisited.congr fun other => ?_⟩
    rw [List.mem_cons]
    exact ⟨fun hother => hother.elim (fun heq => heq ▸ hmem) fun hother => hother, Or.inr⟩
  · have hrun := h.run_eq_alone hpasses hfirst hdone hkind hmem
    have hmodel := h.chain.wellFormed hfirst
    have hdescribes := Phase.run_describes hmodel hrun
    obtain ⟨after, hafter⟩ := hdescribes.exists_commit hmodel
    refine ⟨_, ?_, h.add_new hfirst (hpasses.about kind hkind) (hpasses.reliable kind hkind) hmem
      hdescribes hafter ⟨id, (passOf kind).name, run.sequence⟩⟩
    rw [Run.pass, hrun]
    dsimp only
    rw [hafter]

/-- Passes can be run one after the other. -/
theorem exists_passAll (h : Visited passOf done first run) (hpasses : KeepApart passOf kinds)
    (hfirst : first.WellFormed) (hdone : done ⊆ kinds) {entries : List (String × Pass)}
    {visits : List NodeKind} (hentries : entries.map Prod.snd = visits.map passOf)
    (hvisits : visits ⊆ kinds) :
    ∃ result, Run.passAll entries run = (result, none) ∧
      Visited passOf (visits ++ done) first result := by
  induction visits generalizing entries done run with
  | nil =>
    obtain rfl := List.map_eq_nil_iff.1 hentries
    exact ⟨run, rfl, h⟩
  | cons kind later ih =>
    obtain ⟨⟨id, pass⟩, others, rfl, rfl, hothers⟩ := List.map_eq_cons_iff.1 hentries
    obtain ⟨hkind, hlater⟩ := List.cons_subset.1 hvisits
    obtain ⟨next, hnext, hvisited⟩ := h.exists_pass hpasses hfirst hdone hkind id
    obtain ⟨result, hresult, hvisited⟩ :=
      ih hvisited (List.cons_subset.2 ⟨hkind, hdone⟩) hothers hlater
    refine ⟨result, ?_, hvisited.congr fun other => ?_⟩
    · rw [Run.passAll, hnext]
      exact hresult
    · simp only [List.mem_append, List.mem_cons]
      tauto

/-- What becomes of a model does not depend on the order of the passes, nor on how often each of
them is run. -/
theorem model_eq (h : Visited passOf done first run) (hfirst : first.WellFormed) {run' : Run}
    (h' : Visited passOf done' first run') (hsame : ∀ kind, kind ∈ done' ↔ kind ∈ done) :
    run.model = run'.model := by
  refine (h'.chain.retexts hfirst).eq_of_text?_eq (h.chain.retexts hfirst) fun id => ?_
  by_cases hlt : id < first.size
  · obtain ⟨path, hat⟩ := hfirst.exists_at hlt
    by_cases hkind : first.kind id ∈ done
    · rw [h.text?_eq hat hkind, h'.text?_eq hat ((hsame _).2 hkind)]
    · rw [h.text?_eq_first hat hkind, h'.text?_eq_first hat (mt (hsame _).1 hkind)]
  · -- There is no such element in either model.
    have hle := Nat.le_of_not_lt hlt
    rw [Model.text?, Model.text?, Model.node_of_size_le ((h.shape hfirst).size_eq ▸ hle),
      Model.node_of_size_le ((h'.shape hfirst).size_eq ▸ hle)]

/-- Neither does how diagnostics are moved back. -/
theorem retraceThrough_eq (h : Visited passOf done first run) {run' : Run}
    (h' : Visited passOf done' first run') (hsame : ∀ kind, kind ∈ done' ↔ kind ∈ done)
    (diagnostic : Diagnostic) :
    retraceThrough run.layers diagnostic = retraceThrough run'.layers diagnostic := by
  by_cases hexists : ∃ node path, first.At node path ∧ first.kind node ∈ done ∧
    diagnostic.path = path.render
  · obtain ⟨node, path, hat, hkind, hpath⟩ := hexists
    rw [h.retrace_eq hat hkind diagnostic hpath,
      h'.retrace_eq hat ((hsame _).2 hkind) diagnostic hpath]
  · have hother {node : NodeId} {path : Path} (hat : first.At node path)
        (hkind : first.kind node ∈ done) : diagnostic.path ≠ path.render :=
      fun hpath => hexists ⟨node, path, hat, hkind, hpath⟩
    rw [h.retrace_eq_some diagnostic hother, h'.retrace_eq_some diagnostic fun hat hkind =>
      hother hat ((hsame _).1 hkind)]

end Visited

end Session

end Retrace
