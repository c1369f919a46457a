import Retrace.Proofs.Phase.Calls
import Retrace.Proofs.Session.Provenance

/-!
# The stages of a pipeline

When a model is mapped, the phases of all extensions are run one after the other, each on what the
ones ahead of it have left. A `Session.Stage` is one of these phases together with the run ahead of
it and with what it gave; `Session.stages` lists them. At every stage, the layers of the run are
those of the stages ahead of it (`Linked.layers_eq`), and blocked are the paths about which they
reported something unrecoverable (`Linked.mem_blocked`).

Two results follow. A diagnostic is moved back through the layers of the stages ahead of its own and
through no others, so it is about the text that was sent, whatever is edited at its own stage and at
later ones (`diagnostics_of_mapModel`). And once something unrecoverable was reported about a path,
the element there is left alone for good, while every other element gets the calls for which
handlers are registered (`calls_of_mapModel`).

## Main definitions

* `Session.Stage`: a phase that succeeded, with the run it was part of;
* `Session.stages`: the stages of a session over a model.
-/

namespace Retrace.Session

/-- A phase that succeeded, with the run ahead of it and with what it gave. -/
structure Stage where
  /-- The name of the extension. -/
  extension : String
  /-- The phase. -/
  pass : Pass
  /-- The run ahead of the phase. -/
  before : Run
  /-- What the phase gave. -/
  outcome : Outcome
  /-- The model behind the phase. -/
  model : Model
  /-- The phase gave this for the model ahead of it. -/
  ran : pass.run before.model before.blocked = .ok outcome
  /-- The edits of the phase were brought into that model. -/
  committed : outcome.layer.commit before.model = .ok model

namespace Stage

/-- The phase among those of the whole pipeline. -/
def origin (stage : Stage) : Origin :=
  ⟨stage.extension, stage.pass.name, stage.before.sequence⟩

/-- The run behind the phase. -/
def after (stage : Stage) : Run :=
  stage.before.add stage.origin stage.model stage.outcome

/-- The diagnostics of the phase as they are returned. -/
def returned (stage : Stage) : List Diagnostic :=
  (stage.outcome.diagnostics.filterMap (retraceThrough stage.before.layers)).map
    fun diagnostic => { diagnostic with origin := some stage.origin }

/-- The calls of the phase. -/
def calls (stage : Stage) : List (Phase.Call stage.pass.State) :=
  stage.pass.phase.calls stage.before.model stage.before.blocked

/-- The phase reports something unrecoverable about a path. -/
def Blocks (stage : Stage) (path : String) : Prop :=
  ∃ diagnostic ∈ stage.outcome.diagnostics, diagnostic.isUnrecoverable = true ∧
    diagnostic.path = path

end Stage

/-- The stages of phases up to the first that fails. -/
def Run.stages : List (String × Pass) → Run → List Stage
  | [], _ => []
  | (extension, pass) :: later, run =>
    match hran : pass.run run.model run.blocked with
    | .error _ => []
    | .ok outcome =>
      match hcommit : outcome.layer.commit run.model with
      | .error _ => []
      | .ok model =>
        let stage : Stage := ⟨extension, pass, run, outcome, model, hran, hcommit⟩
        stage :: stages later stage.after

/-- The stages when a session maps a model. -/
def stages (session : Session) (model : Model) : List Stage :=
  Run.stages session.passes { model }

/-! ## From one stage to the next -/

/-- Stages that follow each other lead from one run to another. -/
inductive Linked : Run → List Stage → Run → Prop
  | nil {run : Run} : Linked run [] run
  | cons {stage : Stage} {later : List Stage} {result : Run} :
      Linked stage.after later result → Linked stage.before (stage :: later) result

section PassAll

variable {passes : List (String × Pass)} {extension : String} {pass : Pass}
  {run next result : Run} {fault : Fault}

/-- A phase that succeeds is the first stage. -/
theorem stages_of_pass_eq_ok (later : List (String × Pass))
    (h : run.pass extension pass = .ok next) :
    ∃ stage : Stage, stage.before = run ∧ stage.after = next ∧
      (stage.extension, stage.pass) = (extension, pass) ∧
      Run.stages ((extension, pass) :: later) run = stage :: Run.stages later next := by
  rw [Run.pass] at h
  rw [Run.stages]
  split
  · rename_i fault hran
    simp [hran] at h
  · rename_i outcome hran
    split
    · rename_i error hcommit
      simp [hran, hcommit] at h
    · rename_i model hcommit
      simp only [hran, hcommit, Except.ok.injEq] at h
      subst h
      exact ⟨⟨extension, pass, run, outcome, model, hran, hcommit⟩, rfl, rfl, rfl, rfl⟩

/-- Behind a phase that fails there are no stages. -/
theorem stages_of_pass_eq_error (later : List (String × Pass))
    (h : run.pass extension pass = .error fault) :
    Run.stages ((extension, pass) :: later) run = [] := by
  rw [Run.pass] at h
  rw [Run.stages]
  split
  · rfl
  · rename_i outcome hran
    split
    · rfl
    · rename_i model hcommit
      simp [hran, hcommit] at h

/-- The stages lead to what the phases leave, whether all phases succeed or one fails. -/
theorem linked_passAll (passes : List (String × Pass)) (run : Run) :
    Linked run (Run.stages passes run) (Run.passAll passes run).1 := by
  induction passes generalizing run with
  | nil => exact .nil
  | cons entry later ih =>
    obtain ⟨extension, pass⟩ := entry
    rw [Run.passAll]
    cases hpass : run.pass extension pass with
    | error fault =>
      rw [stages_of_pass_eq_error later hpass]
      exact .nil
    | ok next =>
      obtain ⟨stage, rfl, rfl, -, hstages⟩ := stages_of_pass_eq_ok later hpass
      rw [hstages]
      exact .cons (ih _)

/-- Phases that all succeed are the stages that lead to their result. -/
theorem linked_stages (h : Run.passAll passes run = (result, none)) :
    Linked run (Run.stages passes run) result ∧
      (Run.stages passes run).map (fun stage => (stage.extension, stage.pass)) = passes := by
  refine ⟨by simpa only [h] using linked_passAll passes run, ?_⟩
  induction passes generalizing run with
  | nil => rfl
  | cons entry later ih =>
    obtain ⟨extension, pass⟩ := entry
    rw [Run.passAll] at h
    cases hpass : run.pass extension pass with
    | error fault => simp [hpass] at h
    | ok next =>
      obtain ⟨stage, -, -, hentry, hstages⟩ := stages_of_pass_eq_ok later hpass
      rw [hstages, List.map_cons, hentry, ih (by simpa [hpass] using h)]

/-- If a phase fails, those ahead of it are the stages, and it fails on what they leave. -/
theorem exists_pass_of_passAll (h : Run.passAll passes run = (result, some fault)) :
    ∃ extension pass later, passes =
      (Run.stages passes run).map (fun stage => (stage.extension, stage.pass)) ++
        (extension, pass) :: later ∧ result.pass extension pass = .error fault := by
  induction passes generalizing run with
  | nil => cases (Prod.mk.inj h).2
  | cons entry later ih =>
    obtain ⟨extension, pass⟩ := entry
    rw [Run.passAll] at h
    cases hpass : run.pass extension pass with
    | error fault' =>
      simp only [hpass, Prod.mk.injEq, Option.some.injEq] at h
      obtain ⟨rfl, rfl⟩ := h
      exact ⟨extension, pass, later, by rw [stages_of_pass_eq_error later hpass]; rfl, hpass⟩
    | ok next =>
      obtain ⟨stage, -, -, hentry, hstages⟩ := stages_of_pass_eq_ok later hpass
      obtain ⟨failing, failed, rest, hlater, hfault⟩ := ih (by simpa [hpass] using h)
      refine ⟨failing, failed, rest, ?_, hfault⟩
      rw [hstages, List.map_cons, hentry, List.cons_append, ← hlater]

end PassAll

namespace Linked

variable {run result : Run} {front back stages : List Stage} {stage : Stage}

/-- Stages can be cut in two wherever one likes. -/
theorem of_append (h : Linked run (front ++ back) result) :
    ∃ middle, Linked run front middle ∧ Linked middle back result := by
  induction front generalizing run with
  | nil => exact ⟨run, .nil, h⟩
  | cons first later ih =>
    cases h with
    | cons h =>
      obtain ⟨middle, hfront, hback⟩ := ih h
      exact ⟨middle, .cons hfront, hback⟩

/-- The run ahead of a stage is the one to which the stages ahead of it lead. -/
theorem of_append_cons (h : Linked run (front ++ stage :: back) result) :
    Linked run front stage.before ∧ Linked stage.after back result := by
  obtain ⟨middle, hfront, hback⟩ := h.of_append
  cases hback with
  | cons hback => exact ⟨hfront, hback⟩

/-- Phases are counted. -/
theorem sequence_eq (h : Linked run stages result) :
    result.sequence = run.sequence + stages.length := by
  induction h with
  | nil => rfl
  | @cons stage later result _ ih =>
    have hafter : stage.after.sequence = stage.before.sequence + 1 := rfl
    rw [ih, hafter, List.length_cons]
    omega

/-- The layers of the stages are put in front of each other. -/
theorem layers_eq (h : Linked run stages result) :
    result.layers = (stages.map (·.outcome.layer)).reverse ++ run.layers := by
  induction h with
  | nil => rfl
  | @cons stage later result _ ih =>
    have hafter : stage.after.layers = stage.outcome.layer :: stage.before.layers := rfl
    rw [ih, hafter]
    simp

/-- The diagnostics of the stages are returned one stage after the other. -/
theorem diagnostics_eq (h : Linked run stages result) :
    result.diagnostics = run.diagnostics ++ stages.flatMap Stage.returned := by
  induction h with
  | nil => simp
  | @cons stage later result _ ih =>
    have hafter : stage.after.diagnostics = stage.before.diagnostics ++ stage.returned := rfl
    rw [ih, hafter, List.flatMap_cons, List.append_assoc]

/-- A path is blocked behind some stages if it was before or if one of them blocks it. -/
theorem mem_blocked (h : Linked run stages result) {path : String} :
    path ∈ result.blocked ↔ (∃ stage ∈ stages, stage.Blocks path) ∨ path ∈ run.blocked := by
  induction h with
  | nil => simp
  | @cons stage later result _ ih =>
    have hafter : path ∈ stage.after.blocked ↔ stage.Blocks path ∨ path ∈ stage.before.blocked := by
      simp [Stage.after, Run.add, Stage.Blocks, and_assoc]
    rw [ih, hafter, or_left_comm, ← or_assoc]
    simp only [List.mem_cons, exists_eq_or_imp]

/-- The layers of stages lead from one model to another. -/
theorem chain (h : Linked run stages result) {first : Model} (hfirst : first.WellFormed)
    (hchain : Chain first run.layers run.model) : Chain first result.layers result.model := by
  induction h with
  | nil => exact hchain
  | @cons stage later result _ ih =>
    have hdescribes : stage.outcome.layer.Describes stage.before.model :=
      Phase.run_describes (hchain.wellFormed hfirst) stage.ran
    exact ih (hchain.cons hdescribes stage.committed)

/-- At a path that is blocked from the start, no text is changed. -/
theorem text?_eq (h : Linked run stages result) {first : Model} (hfirst : first.WellFormed)
    (hchain : Chain first run.layers run.model) {node : NodeId} {path : Path}
    (hat : first.At node path) (hblocked : path.render ∈ run.blocked) :
    result.model.text? node = run.model.text? node := by
  induction h with
  | nil => rfl
  | @cons stage later result _ ih =>
    have hmodel := hchain.wellFormed hfirst
    have hdescribes : stage.outcome.layer.Describes stage.before.model :=
      Phase.run_describes hmodel stage.ran
    -- The phase makes no edits there, and the path stays blocked.
    have hsame : stage.model.text? node = stage.before.model.text? node :=
      hdescribes.text?_of_get?_eq_none hmodel stage.committed (hchain.at_of_at hfirst hat)
        (Phase.get?_eq_none_of_run stage.ran hblocked)
    have hstill : path.render ∈ stage.after.blocked := List.mem_append_right _ hblocked
    rw [ih (hchain.cons hdescribes stage.committed) hstill]
    exact hsame

end Linked

/-! ## Mapped models -/

variable {session after : Session} {text : Text} {mapped : Mapped} {model : Model}

/-- What a session keeps of a model are the layers of the stages, also if mapping it failed. Of a
model that cannot be read it keeps nothing. -/
theorem layers_mapModel (session : Session) (text : Text) :
    (session.mapModel text).2.layers =
      match session.format.read (splitPreamble text).2 with
      | .error _ => []
      | .ok model => ((session.stages model).map (·.outcome.layer)).reverse := by
  unfold mapModel
  dsimp only
  cases session.format.read (splitPreamble text).2 with
  | error fault =>
    dsimp only
    split <;> rfl
  | ok model =>
    have hlayers := (linked_passAll session.passes { model }).layers_eq
    rw [List.append_nil] at hlayers
    dsimp only
    -- All that is left to do leaves the layers alone.
    split
    · exact hlayers
    · split <;> exact hlayers

/-- A model that was mapped has gone through the stages, and what they returned came with it. -/
theorem exists_linked_of_mapModel
    (hread : session.format.read (splitPreamble text).2 = .ok model)
    (hmap : session.mapModel text = (.ok mapped, after)) :
    ∃ run, Linked { model } (session.stages model) run ∧ session.transformed model = run.model ∧
      mapped.diagnostics = run.diagnostics ∧
      (session.stages model).map (fun stage => (stage.extension, stage.pass)) = session.passes := by
  unfold mapModel at hmap
  dsimp only at hmap
  rw [hread] at hmap
  cases hrun : Run.passAll session.passes { model } with
  | mk run fault? =>
    simp only [hrun] at hmap
    cases fault? with
    | some fault => cases (Prod.mk.inj hmap).1
    | none =>
      dsimp only at hmap
      split at hmap
      · cases (Prod.mk.inj hmap).1
      · obtain rfl := Except.ok.inj (Prod.mk.inj hmap).1
        obtain ⟨hlinked, hpasses⟩ := linked_stages hrun
        exact ⟨run, hlinked, by rw [transformed, hrun], rfl, hpasses⟩

/-- The diagnostics that come with a mapped model are those that the phases return, one phase after
the other, in the order in which their handlers were called. Each was moved back through the layers
of the phases ahead of its own: if it was made for a span that begins at a character that these
phases kept, it begins where this character stood in the text that was sent, and it is missing
exactly if it begins strictly inside text that one of these phases generated with another length
than what it replaced. -/
theorem diagnostics_of_mapModel (hformat : session.format.Lawful)
    (hread : session.format.read (splitPreamble text).2 = .ok model)
    (hmap : session.mapModel text = (.ok mapped, after)) :
    (session.stages model).map (fun stage => (stage.extension, stage.pass)) = session.passes ∧
    mapped.diagnostics = (session.stages model).flatMap Stage.returned ∧
    ∀ {front back : List Stage} {stage : Stage},
      session.stages model = front ++ stage :: back →
      stage.origin = ⟨stage.extension, stage.pass.name, front.length⟩ ∧
      stage.before.layers = (front.map (·.outcome.layer)).reverse ∧
      (∃ replies state, Phase.Course ⟨stage.pass.phase.start, {}⟩ replies ⟨state, stage.outcome⟩ ∧
        replies.map Phase.Reply.made = stage.calls ∧
        stage.outcome.diagnostics = replies.flatMap Phase.Reply.diagnostics) ∧
      ∀ {node : NodeId} {path : Path} {first : Text}, model.At node path →
        model.text? node = some first →
        ∃ last, stage.before.model.At node path ∧ stage.before.model.text? node = some last ∧
          (∀ {ahead behind : Text} {c : Char} {before : Nat}, last = ahead ++ c :: behind →
            KeptThrough path.render c stage.before.layers (Text.size ahead) before →
            (∃ ahead' behind', first = ahead' ++ c :: behind' ∧ Text.size ahead' = before) ∧
            ∀ (span : Span) (message : String) (diagnostic : Diagnostic),
              span.start = Text.size ahead →
              diagnostic.path =
                (Visit.diagnostic ⟨stage.before.model, node, path⟩ span message).path →
              diagnostic.range =
                (Visit.diagnostic ⟨stage.before.model, node, path⟩ span message).range →
              ∃ traced, retraceThrough stage.before.layers diagnostic = some traced ∧
                traced.path = path.render ∧ traced.range.start = first.position before) ∧
          ∀ diagnostic : Diagnostic, diagnostic.path = path.render →
            (retraceThrough stage.before.layers diagnostic = none ↔
              LostThrough path.render stage.before.layers diagnostic.range.start) := by
  have hmodel := hformat.wellFormed_of_read hread
  obtain ⟨run, hlinked, -, hdiagnostics, hpasses⟩ := exists_linked_of_mapModel hread hmap
  refine ⟨hpasses, by simpa [hlinked.diagnostics_eq] using hdiagnostics, ?_⟩
  intro front back stage hstages
  rw [hstages] at hlinked
  obtain ⟨hfront, -⟩ := hlinked.of_append_cons
  have hchain : Chain model stage.before.layers stage.before.model := hfront.chain hmodel .nil
  refine ⟨?_, by simpa using hfront.layers_eq, ?_, fun {node path first} hat hfirst => ?_⟩
  · rw [Stage.origin, hfront.sequence_eq, Nat.zero_add]
  · exact Phase.exists_course_of_run stage.ran
  · obtain ⟨last, hlast⟩ := hchain.exists_text? hmodel hat hfirst
    refine ⟨last, hchain.at_of_at hmodel hat, hlast, ?_, ?_⟩
    · rintro ahead behind c before rfl hkept
      obtain ⟨hbefore, htraced⟩ :=
        hchain.retraceThrough_of_keptThrough hmodel hat hfirst hlast hkept
      refine ⟨hbefore, fun span message diagnostic hspan hpath hrange => ?_⟩
      refine htraced diagnostic hpath ?_
      -- The handler turned the offset into a position in the text that it was given.
      have htext : (⟨stage.before.model, node, path⟩ : Visit).text? = some (ahead ++ c :: behind) :=
        hlast
      rw [hrange, Visit.diagnostic, htext, ← hspan]
      rfl
    · exact fun diagnostic hpath => hchain.retraceThrough_eq_none_iff hmodel hat diagnostic hpath

/-- A phase that puts a line in front of the system and reports its fourth character as hopeless. -/
def rejecting : Pass :=
  Phase.toPass <| Phase.onEnter ⟨"reject", (), [], []⟩ .system [] fun visit => do
    Handling.replace ⟨0, 0⟩ ['/', '/', '\n'] .discarded
    pure [{ visit.diagnostic ⟨3, 4⟩ "hopeless" with severity := .unrecoverable }]

/-- A session that runs this phase between two that put a line in front of the system. -/
def rejectingBetween : Session where
  extensions := [("prepend", { id := "prepend", passes := [prepending] }),
    ("reject", { id := "reject", passes := [rejecting, prepending] })]

/-- The only character of the system, reported behind the line that the first phase put in front of
it, is returned where it was sent. -/
theorem diagnostics_of_mapModel_rejectingBetween :
    rejectingBetween.format.Lawful ∧
      rejectingBetween.format.read (splitPreamble plainText).2 = .ok plainModel ∧
      ∃ mapped after, rejectingBetween.mapModel plainText = (.ok mapped, after) ∧
        mapped.diagnostics.length = 1 ∧
        ∃ front stage back, rejectingBetween.stages plainModel = front ++ stage :: back ∧
          stage.origin = ⟨"reject", "reject", 1⟩ ∧
          ∃ diagnostic ∈ stage.outcome.diagnostics, diagnostic.range.start = ⟨2, 1⟩ ∧
            ∃ traced, retraceThrough stage.before.layers diagnostic = some traced ∧
              traced.range.start = ⟨1, 1⟩ := by
  have hformat : rejectingBetween.format.Lawful := Format.lawful_markup
  have hread : rejectingBetween.format.read (splitPreamble plainText).2 = .ok plainModel := by
    rw [← Except.toOption_eq_some]
    decide +kernel
  have hmapped : (rejectingBetween.mapModel plainText).1 =
      .ok ⟨"<nta><system>//\n//\na</system></nta>".toList, [⟨"/nta/system", ⟨⟨1, 1⟩, ⟨1, 2⟩⟩,
        "hopeless", "", .unrecoverable, some ⟨"reject", "reject", 1⟩⟩]⟩ := by
    rw [← Except.toOption_eq_some]
    decide +kernel
  obtain ⟨after, hafter⟩ : ∃ after, (rejectingBetween.mapModel plainText).2 = after := ⟨_, rfl⟩
  have hmap : rejectingBetween.mapModel plainText = (.ok _, after) := Prod.ext hmapped hafter
  obtain ⟨hpasses, -, hstage⟩ := diagnostics_of_mapModel hformat hread hmap
  -- There are three stages, and the one in the middle reports.
  obtain ⟨first, stage, last, hstages⟩ :
      ∃ first stage last, rejectingBetween.stages plainModel = [first, stage, last] := by
    refine List.length_eq_three.1 ?_
    rw [← List.length_map, hpasses]
    rfl
  obtain ⟨horigin, hlayers, -, hplaces⟩ := @hstage [first] [last] stage hstages
  have hlayer : (rejectingBetween.stages plainModel).map (·.outcome.layer.get? "/nta/system") =
      [some ⟨['a'], ['/', '/', '\n', 'a'], [⟨⟨0, 0⟩, ⟨0, 3⟩, ['/', '/', '\n'], .discarded⟩]⟩,
        some ⟨['/', '/', '\n', 'a'], ['/', '/', '\n', '/', '/', '\n', 'a'],
          [⟨⟨0, 0⟩, ⟨0, 3⟩, ['/', '/', '\n'], .discarded⟩]⟩, none] := by
    decide +kernel
  have hreported : (rejectingBetween.stages plainModel).map (·.outcome.diagnostics) =
      [[], [⟨"/nta/system", ⟨⟨2, 1⟩, ⟨2, 2⟩⟩, "hopeless", "", .unrecoverable, none⟩], []] := by
    decide +kernel
  have htext : (rejectingBetween.stages plainModel).map (·.before.model.text? 1) =
      [some ['a'], some ['/', '/', '\n', 'a'], some ['/', '/', '\n', '/', '/', '\n', 'a']] := by
    decide +kernel
  have hnames : (rejectingBetween.stages plainModel).map
      (fun stage => (stage.extension, stage.pass.name)) =
        [("prepend", "prepend"), ("reject", "reject"), ("reject", "prepend")] := by
    decide +kernel
  simp only [hstages, List.map_cons, List.map_nil, List.cons.injEq, Prod.mk.injEq, and_true]
    at hlayer hreported htext hnames
  have hat : plainModel.At 1 ⟨[⟨.nta, none⟩, ⟨.system, none⟩]⟩ :=
    .child .root (by decide +kernel)
  have hrender : Path.render ⟨[⟨.nta, none⟩, ⟨.system, none⟩]⟩ = "/nta/system" := by
    decide +kernel
  have hplain : plainModel.text? 1 = some ['a'] := by
    decide +kernel
  obtain ⟨text, -, hhere, hkept, -⟩ := hplaces hat hplain
  obtain rfl : text = ['/', '/', '\n'] ++ 'a' :: [] :=
    Option.some.inj (hhere.symm.trans htext.2.1)
  -- The first phase has kept the character behind its line.
  have hkeeps : KeptThrough (Path.render ⟨[⟨.nta, none⟩, ⟨.system, none⟩]⟩) 'a'
      stage.before.layers 3 0 := by
    rw [hlayers, hrender]
    simp only [List.map_cons, List.map_nil, List.reverse_singleton, KeptThrough, hlayer.1]
    exact ⟨0, ⟨Tracked.ofInserted ['/', '/', '\n'], [], rfl, by decide⟩, rfl⟩
  obtain ⟨-, htraced⟩ := hkept rfl hkeeps
  obtain ⟨traced, hretrace, -, hstart⟩ := htraced ⟨3, 4⟩ "hopeless"
    ⟨"/nta/system", ⟨⟨2, 1⟩, ⟨2, 2⟩⟩, "hopeless", "", .unrecoverable, none⟩ rfl hrender.symm
    (by simp only [Visit.diagnostic, Visit.text?, hhere]; rfl)
  refine ⟨hformat, hread, _, after, hmap, rfl, [first], stage, [last], hstages, ?_, _,
    by simp [hreported], rfl, traced, hretrace, hstart.trans (by decide +kernel)⟩
  rw [horigin, hnames.2.1.1, hnames.2.1.2]
  rfl

/-- Once a phase has reported something unrecoverable about a path, whether or not this is returned,
no later phase calls a handler for the element at this path, and the element keeps the text that
this phase has left. About all other elements the handlers are called that are registered. -/
theorem calls_of_mapModel (hformat : session.format.Lawful)
    (hread : session.format.read (splitPreamble text).2 = .ok model)
    (hmap : session.mapModel text = (.ok mapped, after)) :
    (session.stages model).map (fun stage => (stage.extension, stage.pass)) = session.passes ∧
    ∀ {front back : List Stage} {stage : Stage},
      session.stages model = front ++ stage :: back →
      (∃ replies state, Phase.Course ⟨stage.pass.phase.start, {}⟩ replies ⟨state, stage.outcome⟩ ∧
        replies.map Phase.Reply.made = stage.calls ∧
        stage.outcome.diagnostics = replies.flatMap Phase.Reply.diagnostics) ∧
      (∀ path : String, stage.Blocks path →
        (∀ later ∈ back, ∀ made ∈ later.calls, made.visit.address ≠ path) ∧
        ∀ {node : NodeId} {address : Path}, model.At node address → address.render = path →
          (session.transformed model).text? node = stage.model.text? node) ∧
      ∀ {node : NodeId} {address : Path}, model.At node address →
        (∀ earlier ∈ front, ¬earlier.Blocks address.render) →
        stage.calls.filter (·.visit.node = node) =
          Phase.registered stage.before.model stage.pass.phase.enter node address ++
            Phase.registered stage.before.model stage.pass.phase.leave node address := by
  have hmodel := hformat.wellFormed_of_read hread
  obtain ⟨run, hlinked, htransformed, -, hpasses⟩ := exists_linked_of_mapModel hread hmap
  refine ⟨hpasses, ?_⟩
  intro front back stage hstages
  rw [hstages] at hlinked
  obtain ⟨hfront, hback⟩ := hlinked.of_append_cons
  have hchain : Chain model stage.before.layers stage.before.model := hfront.chain hmodel .nil
  refine ⟨Phase.exists_course_of_run stage.ran, fun path hblocks => ?_,
    fun {node address} hat hfree => ?_⟩
  · have hblocked : path ∈ stage.after.blocked := by
      obtain ⟨diagnostic, hmem, hunrecoverable, rfl⟩ := hblocks
      exact List.mem_append_left _
        (List.mem_map_of_mem (List.mem_filter.2 ⟨hmem, hunrecoverable⟩))
    refine ⟨fun later hlater made hmade => ?_, ?_⟩
    · -- The path is still blocked when the later phase begins.
      obtain ⟨between, rest, rfl⟩ := List.append_of_mem hlater
      obtain ⟨hbetween, -⟩ := hback.of_append_cons
      have hstill := hbetween.mem_blocked.2 (Or.inr hblocked)
      exact Phase.address_ne_of_mem_calls hmade hstill
    · rintro node address hat rfl
      have hafter : Chain model stage.after.layers stage.after.model :=
        (@Linked.cons stage _ _ .nil).chain hmodel hchain
      rw [htransformed, hback.text?_eq hmodel hafter hat hblocked]
      rfl
  · refine Phase.filter_calls (hchain.wellFormed hmodel) (hchain.at_of_at hmodel hat) fun hmem => ?_
    rcases hfront.mem_blocked.1 hmem with ⟨earlier, hearlier, hblocks⟩ | hmem
    · exact hfree earlier hearlier hblocks
    · cases hmem

/-- The system is hopeless after the second phase, so the third one does not put a line in front of
it; the first one did. -/
theorem calls_of_mapModel_rejectingBetween :
    rejectingBetween.format.Lawful ∧
      rejectingBetween.format.read (splitPreamble plainText).2 = .ok plainModel ∧
      ∃ mapped after, rejectingBetween.mapModel plainText = (.ok mapped, after) ∧
        ∃ first stage last, rejectingBetween.stages plainModel = [first, stage, last] ∧
          (first.calls.filter (·.visit.node = 1)).length = 1 ∧
          stage.Blocks "/nta/system" ∧
          (∀ made ∈ last.calls, made.visit.address ≠ "/nta/system") ∧
          (rejectingBetween.transformed plainModel).text? 1 = stage.model.text? 1 := by
  have hformat : rejectingBetween.format.Lawful := Format.lawful_markup
  have hread : rejectingBetween.format.read (splitPreamble plainText).2 = .ok plainModel := by
    rw [← Except.toOption_eq_some]
    decide +kernel
  obtain ⟨mapped, hmapped⟩ :
      ∃ mapped, (rejectingBetween.mapModel plainText).1 = .ok mapped := by
    refine ⟨⟨"<nta><system>//\n//\na</system></nta>".toList, [⟨"/nta/system", ⟨⟨1, 1⟩, ⟨1, 2⟩⟩,
      "hopeless", "", .unrecoverable, some ⟨"reject", "reject", 1⟩⟩]⟩, ?_⟩
    rw [← Except.toOption_eq_some]
    decide +kernel
  obtain ⟨after, hafter⟩ : ∃ after, (rejectingBetween.mapModel plainText).2 = after := ⟨_, rfl⟩
  have hmap : rejectingBetween.mapModel plainText = (.ok mapped, after) := Prod.ext hmapped hafter
  obtain ⟨hpasses, hstage⟩ := calls_of_mapModel hformat hread hmap
  obtain ⟨first, stage, last, hstages⟩ :
      ∃ first stage last, rejectingBetween.stages plainModel = [first, stage, last] := by
    refine List.length_eq_three.1 ?_
    rw [← List.length_map, hpasses]
    rfl
  have hreported : (rejectingBetween.stages plainModel).map (·.outcome.diagnostics) =
      [[], [⟨"/nta/system", ⟨⟨2, 1⟩, ⟨2, 2⟩⟩, "hopeless", "", .unrecoverable, none⟩], []] := by
    decide +kernel
  have hentered : (rejectingBetween.stages plainModel).map (fun stage =>
      (Phase.registered stage.before.model stage.pass.phase.enter 1
        ⟨[⟨.nta, none⟩, ⟨.system, none⟩]⟩).length) = [1, 1, 1] := by
    decide +kernel
  have hleft : (rejectingBetween.stages plainModel).map (fun stage =>
      (Phase.registered stage.before.model stage.pass.phase.leave 1
        ⟨[⟨.nta, none⟩, ⟨.system, none⟩]⟩).length) = [0, 0, 0] := by
    decide +kernel
  simp only [hstages, List.map_cons, List.map_nil, List.cons.injEq] at hreported hentered hleft
  have hat : plainModel.At 1 ⟨[⟨.nta, none⟩, ⟨.system, none⟩]⟩ :=
    .child .root (by decide +kernel)
  have hrender : Path.render ⟨[⟨.nta, none⟩, ⟨.system, none⟩]⟩ = "/nta/system" := by
    decide +kernel
  have hblocks : stage.Blocks "/nta/system" := by
    rw [Stage.Blocks, hreported.2.1]
    exact ⟨_, List.mem_singleton_self _, rfl, rfl⟩
  -- Nothing was reported ahead of the first phase, so it has called its handler.
  obtain ⟨-, -, hcalled⟩ := @hstage [] [stage, last] first hstages
  have hfirst := hcalled hat fun earlier hearlier => (List.not_mem_nil hearlier).elim
  obtain ⟨-, hshielded, -⟩ := @hstage [first] [last] stage hstages
  obtain ⟨huncalled, hsame⟩ := hshielded "/nta/system" hblocks
  refine ⟨hformat, hread, mapped, after, hmap, first, stage, last, hstages, ?_, hblocks,
    huncalled last List.mem_cons_self, hsame hat hrender⟩
  rw [hfirst, List.length_append, hentered.1, hleft.1]

end Retrace.Session
