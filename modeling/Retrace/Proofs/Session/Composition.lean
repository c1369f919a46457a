import Retrace.Proofs.Session.Detach
import Retrace.Proofs.Session.Preamble
import Retrace.Proofs.Session.Provenance

/-!
# Extensions one after the other

Running some extensions and then others over a model is the same as running all of them in one
session, although the model is written and read again in between. What is written is read into the
same tree as before, so phases that look at the tree only go on as if nothing had happened; and they
are not held up either, as long as no diagnostic of the first session blocks an element. The layers
of both sessions are those of the one, so a diagnostic takes the same way back.

## Main definitions

* `Session.Run.reported`: the diagnostics of all phases of a run.

## Main results

* `Session.Chain.retexts`: phases change texts only;
* `Session.exists_split_of_retexts`: a model with other texts is written behind the same preamble;
* `Session.mapModel_append`: two sessions in a row do what a session with all extensions does.
-/

namespace Retrace

/-- Bringing a layer into a model changes texts only. -/
theorem Layer.retexts_of_commitAll {fields : List (String × RevisedText)} {model after : Model}
    (hmodel : model.WellFormed) (h : commitAll fields model = .ok after) :
    model.Retexts after := by
  induction fields generalizing model with
  | nil =>
    obtain rfl := Except.ok.inj h
    exact .refl model
  | cons first later ih =>
    obtain ⟨path, revised⟩ := first
    unfold commitAll at h
    split at h
    · cases h
    · rename_i middle hset
      exact (Model.retexts_of_setText hmodel hset).trans (ih (hmodel.setText hset) h)

namespace Session

variable {text : Text} {model : Model}

/-! ## What phases leave of a model -/

/-- Phases change texts only. -/
theorem Chain.retexts {first last : Model} {layers : List Layer} (h : Chain first layers last)
    (hfirst : first.WellFormed) : first.Retexts last := by
  induction h with
  | nil => exact .refl first
  | cons hchain _ hcommit ih =>
    exact ih.trans (Layer.retexts_of_commitAll (hchain.wellFormed hfirst) hcommit)

/-- The second part of a text that can be read may have other texts: it is written, the root element
is found again where it begins, and it can be read. -/
theorem exists_split_of_retexts {edited : Model}
    (hread : Model.read (splitPreamble text).2 = .ok model) (h : model.Retexts edited) :
    ∃ body again, edited.write = .ok body ∧
      splitPreamble ((splitPreamble text).1 ++ body) = ((splitPreamble text).1, body) ∧
      Model.read body = .ok again ∧ again.detach = edited.detach := by
  obtain ⟨document, body, again, hdocument, hwrite, hrevised, hagain, hdetach⟩ :=
    Model.exists_read_of_retexts hread h
  refine ⟨body, again, hwrite, ?_, hagain, hdetach⟩
  have hprolog : document.prolog = [] := by
    obtain ⟨later, hlater⟩ := exists_append_of_read hread
    rw [hlater] at hdocument
    exact prolog_eq_nil_of_read hdocument
  obtain ⟨document', rooted, hdocument', hroot, -⟩ := Model.read_eq_ok hagain
  obtain rfl := Except.ok.inj (hdocument'.symm.trans hrevised)
  obtain ⟨later, hlater⟩ := exists_text_of_readRoot hroot
  rw [← Markup.Document.text_of_read hrevised, Markup.Document.text]
  dsimp only at hlater ⊢
  rw [hprolog, hlater, List.nil_append, List.append_assoc]
  exact splitPreamble_append (isBefore_splitPreamble text)

/-! ## What phases report -/

/-- The diagnostics that the handlers of all phases report, up to the first phase that fails. -/
def Run.reported : List (String × Pass) → Run → List Diagnostic
  | [], _ => []
  | (extension, pass) :: later, run =>
    match pass.run run.model run.blocked, run.pass extension pass with
    | .ok outcome, .ok next => outcome.diagnostics ++ reported later next
    | .ok outcome, .error _ => outcome.diagnostics
    | .error _, _ => []

/-- Nothing is blocked in addition if every diagnostic is recoverable. -/
theorem blocked_of_reported {passes : List (String × Pass)} {run result : Run}
    (hrun : Run.passAll passes run = (result, none))
    (h : ∀ diagnostic ∈ Run.reported passes run, diagnostic.isUnrecoverable = false) :
    result.blocked = run.blocked := by
  induction passes generalizing run with
  | nil =>
    obtain ⟨rfl, -⟩ := Prod.mk.inj hrun
    rfl
  | cons first later ih =>
    obtain ⟨extension, pass⟩ := first
    rw [Run.passAll] at hrun
    rw [Run.reported] at h
    cases hpass : run.pass extension pass with
    | error fault =>
      rw [hpass] at hrun
      cases (Prod.mk.inj hrun).2
    | ok next =>
      rw [hpass] at hrun h
      unfold Run.pass at hpass
      split at hpass
      · cases hpass
      · rename_i outcome hphase
        split at hpass
        · cases hpass
        · obtain rfl := Except.ok.inj hpass
          rw [hphase] at h
          obtain ⟨hfirst, hlater⟩ := List.forall_mem_append.1 h
          rw [ih hrun hlater, Run.add]
          -- Only unrecoverable diagnostics block elements.
          have hnone : outcome.diagnostics.filter Diagnostic.isUnrecoverable = [] :=
            List.filter_eq_nil_iff.2 fun diagnostic hmem =>
              Bool.eq_false_iff.1 (hfirst diagnostic hmem)
          dsimp only
          rw [hnone]
          rfl

/-! ## Runs and requests -/

/-- Phases are run one list after the other. -/
theorem passAll_append {first second : List (String × Pass)} {run next : Run}
    (h : Run.passAll first run = (next, none)) :
    Run.passAll (first ++ second) run = Run.passAll second next := by
  induction first generalizing run with
  | nil =>
    obtain ⟨rfl, -⟩ := Prod.mk.inj h
    rfl
  | cons entry later ih =>
    obtain ⟨extension, pass⟩ := entry
    rw [Run.passAll] at h
    rw [List.cons_append, Run.passAll]
    cases hpass : run.pass extension pass with
    | error fault =>
      rw [hpass] at h
      cases (Prod.mk.inj h).2
    | ok reached =>
      rw [hpass] at h
      exact ih h

/-- What is known when a model that can be read was mapped: all phases have succeeded. -/
theorem exists_run_of_mapModel {session after : Session} {mapped : Mapped}
    (hread : session.format.read (splitPreamble text).2 = .ok model)
    (h : session.mapModel text = (.ok mapped, after)) :
    ∃ run, Run.passAll session.passes { model } = (run, none) := by
  unfold mapModel at h
  dsimp only at h
  rw [hread] at h
  cases hrun : Run.passAll session.passes { model } with
  | mk run fault? =>
    simp only [hrun] at h
    cases fault? with
    | some fault => cases (Prod.mk.inj h).1
    | none => exact ⟨run, rfl⟩

/-- A model that can be read is mapped if all phases succeed and their result can be written. -/
theorem mapModel_of_write {session : Session} (hformat : session.format = .markup)
    (hread : Model.read (splitPreamble text).2 = .ok model) {run : Run}
    (hrun : Run.passAll session.passes { model } = (run, none)) {body : Text}
    (hwrite : run.model.write = .ok body) :
    session.mapModel text = (.ok ⟨(splitPreamble text).1 ++ body, run.diagnostics⟩,
      { session with layers := run.layers }) := by
  have hok : session.format.read (splitPreamble text).2 = .ok model := by
    rw [hformat]
    exact Except.mapError_eq_ok.2 hread
  have hwritten : session.format.write run.model = .ok body := by
    rw [hformat]
    exact Except.mapError_eq_ok.2 hwrite
  unfold mapModel
  dsimp only
  rw [hok]
  dsimp only
  rw [hrun]
  dsimp only
  rw [hwritten]

/-- The result of phases that all succeed can be written. Behind the same preamble there is then the
tree that the phases have made. -/
theorem mapModel_of_passAll {session : Session} (hformat : session.format = .markup)
    (hread : Model.read (splitPreamble text).2 = .ok model) {run : Run}
    (hrun : Run.passAll session.passes { model } = (run, none)) :
    ∃ body again,
      session.mapModel text = (.ok ⟨(splitPreamble text).1 ++ body, run.diagnostics⟩,
        { session with layers := run.layers }) ∧
      splitPreamble ((splitPreamble text).1 ++ body) = ((splitPreamble text).1, body) ∧
      Model.read body = .ok again ∧ again.detach = run.model.detach := by
  have hmodel := Model.wellFormed_of_read hread
  obtain ⟨body, again, hbody, hsplit, hagain, hdetach⟩ :=
    exists_split_of_retexts hread ((Chain.nil.passAll hmodel hrun).retexts hmodel)
  exact ⟨body, again, mapModel_of_write hformat hread hrun hbody, hsplit, hagain, hdetach⟩

/-- Suppose a session maps a model and none of its handlers reports an unrecoverable diagnostic, and
that the handlers of a second session look at the tree of a model only. If a session with the
extensions of the first and then those of the second maps the model, then the second session maps
what the first one gives. In both cases the preamble stays as it was, the same tree is read from
what stands behind it, and a diagnostic about it is moved back in the same way, be it through both
sessions or through the one. -/
theorem mapModel_append {first second both : Session} (hfirst : first.format = .markup)
    (hsecond : second.format = .markup) (hboth : both.format = .markup)
    (hextensions : both.extensions = first.extensions ++ second.extensions)
    (hignores : ∀ entry ∈ second.passes, entry.2.phase.IgnoresDocument)
    (hread : Model.read (splitPreamble text).2 = .ok model)
    {between mapped : Mapped} {afterFirst afterBoth : Session}
    (hmapFirst : first.mapModel text = (.ok between, afterFirst))
    (hreported : ∀ diagnostic ∈ Run.reported first.passes { model },
      diagnostic.isUnrecoverable = false)
    (hmapBoth : both.mapModel text = (.ok mapped, afterBoth)) :
    ∃ mapped' afterSecond again again',
      second.mapModel between.text = (.ok mapped', afterSecond) ∧
      (splitPreamble mapped.text).1 = (splitPreamble text).1 ∧
      (splitPreamble mapped'.text).1 = (splitPreamble text).1 ∧
      Model.read (splitPreamble mapped.text).2 = .ok again ∧
      Model.read (splitPreamble mapped'.text).2 = .ok again' ∧
      again.detach = again'.detach ∧
      ∀ diagnostic, afterBoth.retrace? diagnostic =
        (afterSecond.retrace? diagnostic).bind afterFirst.retrace? := by
  have hok : Format.markup.read (splitPreamble text).2 = .ok model :=
    Except.mapError_eq_ok.2 hread
  obtain ⟨run, hrun⟩ := exists_run_of_mapModel (hfirst ▸ hok) hmapFirst
  obtain ⟨runBoth, hrunBoth⟩ := exists_run_of_mapModel (hboth ▸ hok) hmapBoth
  obtain ⟨body, received, hmap, hsplit, hreceived, hdetach⟩ :=
    mapModel_of_passAll hfirst hread hrun
  obtain ⟨bodyBoth, again, hmap', hsplitBoth, hagain, hdetachBoth⟩ :=
    mapModel_of_passAll hboth hread hrunBoth
  obtain ⟨rfl, rfl⟩ : _ = between ∧ _ = afterFirst := by
    simpa only [Prod.mk.injEq, Except.ok.injEq] using hmap.symm.trans hmapFirst
  obtain ⟨rfl, rfl⟩ : _ = mapped ∧ _ = afterBoth := by
    simpa only [Prod.mk.injEq, Except.ok.injEq] using hmap'.symm.trans hmapBoth
  -- The second session goes on where the first one stopped.
  have hpasses : both.passes = first.passes ++ second.passes := by
    rw [passes, hextensions, List.flatMap_append]
    rfl
  have hrest : Run.passAll second.passes run = (runBoth, none) := by
    rw [← passAll_append hrun, ← hpasses, hrunBoth]
  have hblocked : run.blocked = [] := blocked_of_reported hrun hreported
  have hcontinues : Run.Continues run.layers { model := received } run :=
    ⟨hdetach.symm, rfl, hblocked⟩
  obtain ⟨hnone, hend⟩ := hcontinues.passAll hignores
  rw [hrest] at hnone hend
  obtain ⟨runSecond, hrunSecond⟩ : ∃ runSecond,
      Run.passAll second.passes { model := received } = (runSecond, none) :=
    ⟨_, Prod.ext rfl hnone.symm⟩
  rw [hrunSecond] at hend
  -- So it comes to the same tree as the session with all extensions.
  have hreceived' : Model.read (splitPreamble ((splitPreamble text).1 ++ body)).2 =
      .ok received := by
    rw [hsplit]
    exact hreceived
  obtain ⟨bodySecond, again', hmapSecond, hsplitSecond, hagain', hdetachSecond⟩ :=
    mapModel_of_passAll hsecond hreceived' hrunSecond
  rw [hsplit] at hsplitSecond hmapSecond
  refine ⟨_, _, again, again', hmapSecond, ?_, ?_, ?_, ?_, ?_, ?_⟩
  · rw [hsplitBoth]
  · rw [hsplitSecond]
  · rw [hsplitBoth]
    exact hagain
  · rw [hsplitSecond]
    exact hagain'
  · rw [hdetachBoth, hdetachSecond, hend.model_eq]
  · intro diagnostic
    rw [retrace?, hend.layers_eq, retraceThrough, List.foldlM_append]
    rfl

/-- A phase that puts a line in front of the system does not look at the document. -/
theorem prepending_ignoresDocument : prepending.phase.IgnoresDocument where
  enter registration hmem := by
    obtain rfl := List.mem_singleton.1 hmem
    exact fun visit => rfl
  leave registration hmem := (List.not_mem_nil hmem).elim

/-- A session that puts one line in front of the system. -/
def prependingOnce : Session where
  extensions := [("prepend", { id := "prepend", passes := [prepending] })]

/-- A session that puts one line in front of the system and then another one. -/
def prependingBoth : Session where
  extensions := prependingOnce.extensions ++ prependingOnce.extensions

/-- Putting one line in front of the system in each of two sessions is putting two lines there in
one session. -/
theorem mapModel_append_prepending :
    (∀ entry ∈ prependingOnce.passes, entry.2.phase.IgnoresDocument) ∧
      Model.read (splitPreamble plainText).2 = .ok plainModel ∧
      Run.reported prependingOnce.passes { model := plainModel } = [] ∧
      ∃ between mapped mapped' afterFirst afterBoth afterSecond,
        prependingOnce.mapModel plainText = (.ok between, afterFirst) ∧
        prependingBoth.mapModel plainText = (.ok mapped, afterBoth) ∧
        prependingOnce.mapModel between.text = (.ok mapped', afterSecond) ∧
        ∀ diagnostic, afterBoth.retrace? diagnostic =
          (afterSecond.retrace? diagnostic).bind afterFirst.retrace? := by
  have hignores : ∀ entry ∈ prependingOnce.passes, entry.2.phase.IgnoresDocument := by
    intro entry hmem
    obtain rfl : entry = ("prepend", prepending) := List.mem_singleton.1 hmem
    exact prepending_ignoresDocument
  have hread : Model.read (splitPreamble plainText).2 = .ok plainModel := by
    rw [← Except.toOption_eq_some]
    decide +kernel
  have hreported : Run.reported prependingOnce.passes { model := plainModel } = [] := by
    decide +kernel
  have hfirst : (prependingOnce.mapModel plainText).1 =
      .ok ⟨"<nta><system>//\na</system></nta>".toList, []⟩ := by
    rw [← Except.toOption_eq_some]
    decide +kernel
  have hboth : (prependingBoth.mapModel plainText).1 =
      .ok ⟨"<nta><system>//\n//\na</system></nta>".toList, []⟩ := by
    rw [← Except.toOption_eq_some]
    decide +kernel
  obtain ⟨afterFirst, hafterFirst⟩ : ∃ after, (prependingOnce.mapModel plainText).2 = after :=
    ⟨_, rfl⟩
  obtain ⟨afterBoth, hafterBoth⟩ : ∃ after, (prependingBoth.mapModel plainText).2 = after :=
    ⟨_, rfl⟩
  have hmapFirst : prependingOnce.mapModel plainText =
      (.ok ⟨"<nta><system>//\na</system></nta>".toList, []⟩, afterFirst) :=
    Prod.ext hfirst hafterFirst
  have hmapBoth : prependingBoth.mapModel plainText =
      (.ok ⟨"<nta><system>//\n//\na</system></nta>".toList, []⟩, afterBoth) :=
    Prod.ext hboth hafterBoth
  have hrecoverable : ∀ diagnostic ∈ Run.reported prependingOnce.passes { model := plainModel },
      diagnostic.isUnrecoverable = false := by
    rw [hreported]
    exact fun _ hmem => (List.not_mem_nil hmem).elim
  obtain ⟨mapped', afterSecond, -, -, hsecond, -, -, -, -, -, hretrace⟩ :=
    mapModel_append rfl rfl rfl rfl hignores hread hmapFirst hrecoverable hmapBoth
  exact ⟨hignores, hread, hreported, _, _, mapped', afterFirst, afterBoth, afterSecond, hmapFirst,
    hmapBoth, hsecond, hretrace⟩

end Session

end Retrace
