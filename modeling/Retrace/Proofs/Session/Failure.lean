import Retrace.Proofs.Revision.Monotone
import Retrace.Proofs.Session.Isolation

/-!
# Requests that fail

A request gives up what the session kept of the latest request of its kind before anything else is
done, and when a phase fails, the layers of the phases ahead of it stay behind. There is no mapped
model that they could be about; nevertheless diagnostics are moved back through them, and come back
unchanged only if no phase ahead of the failure was concerned with their element. The same is true
of queries. A request that fails for its very text is different: nothing stays behind.

## Main results

* `Session.exists_pass_of_passAll`, `Session.exists_reviseQuery_of_reviseAll`: where phases and
  revisions of queries stop;
* `Session.retraceQueryThrough_eq_some_self_iff`: only without revisions is every diagnostic moved
  back to itself;
* `Session.retrace?_and_retraceQuery?_of_error`: what diagnostics go through after a failure;
* `Session.mapModel_and_mapQuery_stoppingBehind`: a failed request changes diagnostics.
-/

namespace Retrace.Session

/-! ## Diagnostics that are not moved -/

section Moved

variable {revisions : List Revision}

/-- What is moved back through revisions begins on a line of the text ahead of the first of them. -/
theorem exists_line_le_of_retraceQueryThrough (h : revisions ≠ []) :
    ∃ bound, ∀ {diagnostic traced : Diagnostic},
      retraceQueryThrough revisions diagnostic = some traced → traced.range.start.line ≤ bound := by
  induction revisions with
  | nil => exact absurd rfl h
  | cons revision later ih =>
    cases later with
    | nil =>
      refine ⟨revision.base.lineCount, fun {diagnostic traced} htraced => ?_⟩
      obtain ⟨middle, hmiddle, hlast⟩ := retraceQueryThrough_cons_eq_some.1 htraced
      -- The first revision is the last one on the way back.
      obtain rfl : middle = traced := Option.some.inj hlast
      obtain ⟨offset, hstart⟩ := Revision.exists_position_of_retraceDiagnostic? hmiddle
      rw [hstart]
      exact Text.line_position_le _ offset
    | cons next others =>
      obtain ⟨bound, hbound⟩ := ih (List.cons_ne_nil next others)
      refine ⟨bound, fun {diagnostic traced} htraced => ?_⟩
      obtain ⟨middle, -, hlater⟩ := retraceQueryThrough_cons_eq_some.1 htraced
      exact hbound hlater

/-- Moving back leaves all diagnostics about a text as they are only if there are no revisions: a
diagnostic behind all lines is moved to one of them. -/
theorem retraceQueryThrough_eq_some_self_iff (path : String) :
    (∀ diagnostic : Diagnostic, diagnostic.path = path →
      retraceQueryThrough revisions diagnostic = some diagnostic) ↔ revisions = [] := by
  refine ⟨fun h => ?_, fun h diagnostic _ => by rw [h]; rfl⟩
  by_contra hrevisions
  obtain ⟨bound, hbound⟩ := exists_line_le_of_retraceQueryThrough hrevisions
  -- A diagnostic behind this line cannot stay where it is.
  have hline : bound + 1 ≤ bound :=
    hbound (h { path, range := ⟨⟨bound + 1, 1⟩, {}⟩, message := "" } rfl)
  omega

/-- Moving back through layers leaves all diagnostics about an element as they are exactly if no
layer has a revision of its text. -/
theorem retraceThrough_eq_some_self_iff {layers : List Layer} (path : String) :
    (∀ diagnostic : Diagnostic, diagnostic.path = path →
      retraceThrough layers diagnostic = some diagnostic) ↔
        ∀ layer ∈ layers, layer.get? path = none := by
  rw [← List.filterMap_eq_nil_iff, ← retraceQueryThrough_eq_some_self_iff path]
  refine forall_congr' fun diagnostic => ?_
  refine forall_congr' fun hpath => ?_
  rw [retraceThrough_eq_retraceQueryThrough, hpath]

end Moved

/-! ## Where requests fail -/

/-- Behind an extension that does not fail, the others go on with what it has left, whether it has
revised the query or not. -/
theorem exists_reviseAll_cons {extension : Extension} {mapped : Mapped}
    {revised? : Option RevisedQuery} (h : extension.reviseQuery mapped.text = .ok revised?)
    (revisions : List Revision) :
    ∃ mapped' revisions', ∀ later,
      reviseAll (extension :: later) mapped revisions = reviseAll later mapped' revisions' := by
  cases revised? with
  | none => exact ⟨mapped, revisions, fun later => by simp only [reviseAll, h]⟩
  | some revised =>
    let traced := revised.diagnostics.filterMap (retraceQueryThrough revisions)
    exact ⟨⟨revised.revision.current, mapped.diagnostics ++ traced⟩, revised.revision :: revisions,
      fun later => by simp only [reviseAll, h, traced]⟩

/-- If the extensions do not all revise a query, one of them fails, and those ahead of it have
revised it. -/
theorem exists_reviseQuery_of_reviseAll {extensions : List Extension} {mapped : Mapped}
    {revisions revisions' : List Revision} {fault : Fault}
    (h : reviseAll extensions mapped revisions = (.error fault, revisions')) :
    ∃ front extension back mapped', extensions = front ++ extension :: back ∧
      reviseAll front mapped revisions = (.ok mapped', revisions') ∧
      extension.reviseQuery mapped'.text = .error fault := by
  induction extensions generalizing mapped revisions with
  | nil => cases (Prod.mk.inj h).1
  | cons extension later ih =>
    cases hrevise : extension.reviseQuery mapped.text with
    | error fault' =>
      rw [reviseAll, hrevise] at h
      obtain ⟨hfault, rfl⟩ := Prod.mk.inj h
      obtain rfl := Except.error.inj hfault
      exact ⟨[], extension, later, mapped, rfl, rfl, hrevise⟩
    | ok revised? =>
      obtain ⟨next, kept, hnext⟩ := exists_reviseAll_cons hrevise revisions
      rw [hnext] at h
      obtain ⟨front, failing, back, mapped', rfl, hfront, hfault⟩ := ih h
      exact ⟨extension :: front, failing, back, mapped', rfl, (hnext front).trans hfront, hfault⟩

/-- A model cannot be mapped if it cannot be read, if a phase fails on what the stages ahead of it
have left, or if what all stages have left cannot be written. -/
theorem mapModel_eq_error {session after : Session} {text : Text} {fault : Fault}
    (h : session.mapModel text = (.error fault, after)) :
    session.format.read (splitPreamble text).2 = .error fault ∨
      ∃ model run, session.format.read (splitPreamble text).2 = .ok model ∧
        Linked { model } (session.stages model) run ∧
        ((∃ extension pass later, session.passes =
            (session.stages model).map (fun stage => (stage.extension, stage.pass)) ++
              (extension, pass) :: later ∧ run.pass extension pass = .error fault) ∨
          session.passes =
            (session.stages model).map (fun stage => (stage.extension, stage.pass)) ∧
              session.format.write run.model = .error fault) := by
  unfold mapModel at h
  dsimp only at h
  cases hread : session.format.read (splitPreamble text).2 with
  | error fault' =>
    rw [hread] at h
    dsimp only at h
    split at h
    · -- A text that is to blame itself comes back with a diagnostic, which is no failure.
      cases (Prod.mk.inj h).1
    · exact Or.inl (congrArg _ (Except.error.inj (Prod.mk.inj h).1))
  | ok model =>
    rw [hread] at h
    have hlinked := linked_passAll session.passes { model }
    cases hrun : Run.passAll session.passes { model } with
    | mk run fault? =>
      simp only [hrun] at h hlinked
      refine Or.inr ⟨model, run, rfl, hlinked, ?_⟩
      cases fault? with
      | some fault' =>
        obtain rfl := Except.error.inj (Prod.mk.inj h).1
        exact Or.inl (exists_pass_of_passAll hrun)
      | none =>
        refine Or.inr ⟨(linked_stages hrun).2.symm, ?_⟩
        dsimp only at h
        split at h
        · rename_i hwrite
          rw [hwrite, Except.error.inj (Prod.mk.inj h).1]
        · cases (Prod.mk.inj h).1

/-! ## What stays behind -/

/-- If a model cannot be mapped, what is kept of a query stays. If the model could be read, the
layers of all stages ahead of the failure are kept, so afterwards diagnostics about an element come
back unchanged exactly if none of these stages has a revision of its text. If a query cannot be
mapped, what is kept of a model stays, and the revisions of all extensions ahead of the one that
failed are kept, so afterwards diagnostics come back unchanged only if there are none. -/
theorem retrace?_and_retraceQuery?_of_error (session : Session) :
    (∀ {text fault after}, session.mapModel text = (.error fault, after) →
      after.revisions = session.revisions ∧
      ((session.format.read (splitPreamble text).2 = .error fault ∧ after.layers = []) ∨
        ∃ model run, session.format.read (splitPreamble text).2 = .ok model ∧
          Linked { model } (session.stages model) run ∧
          ((∃ extension pass later, session.passes =
              (session.stages model).map (fun stage => (stage.extension, stage.pass)) ++
                (extension, pass) :: later ∧ run.pass extension pass = .error fault) ∨
            session.passes =
              (session.stages model).map (fun stage => (stage.extension, stage.pass)) ∧
                session.format.write run.model = .error fault) ∧
          after.layers = ((session.stages model).map (·.outcome.layer)).reverse ∧
          ∀ path, (∀ diagnostic : Diagnostic, diagnostic.path = path →
              after.retrace? diagnostic = some diagnostic) ↔
            ∀ stage ∈ session.stages model, stage.outcome.layer.get? path = none)) ∧
    ∀ {query fault after}, session.mapQuery query = (.error fault, after) →
      after.layers = session.layers ∧
      (∃ front extension back mapped,
        session.extensions.map Prod.snd = front ++ extension :: back ∧
        reviseAll front ⟨query, []⟩ [] = (.ok mapped, after.revisions) ∧
        extension.reviseQuery mapped.text = .error fault) ∧
      ((∀ diagnostic : Diagnostic, after.retraceQuery? diagnostic = some diagnostic) ↔
        after.revisions = []) := by
  refine ⟨fun {text fault after} h => ?_, fun {query fault after} h => ?_⟩
  · have hlayers := session.layers_mapModel text
    refine ⟨?_, ?_⟩
    · have hafter := session.mapModel_eq_fresh text
      rw [h] at hafter
      rw [(Prod.mk.inj hafter).2]
    -- Whichever way the request has failed, the layers of the stages are kept.
    rw [h] at hlayers
    obtain hread | ⟨model, run, hread, hlinked, hfault⟩ := mapModel_eq_error h
    · rw [hread] at hlayers
      exact Or.inl ⟨hread, hlayers⟩
    · rw [hread] at hlayers
      refine Or.inr ⟨model, run, hread, hlinked, hfault, hlayers, fun path => ?_⟩
      rw [show after.retrace? = retraceThrough after.layers from rfl,
        retraceThrough_eq_some_self_iff path, hlayers]
      simp only [List.mem_reverse, List.forall_mem_map]
  · have hresult : reviseAll (session.extensions.map Prod.snd) ⟨query, []⟩ [] =
        (.error fault, after.revisions) := by
      rw [← (Prod.mk.inj h).2]
      exact Prod.ext (Prod.mk.inj h).1 rfl
    refine ⟨?_, exists_reviseQuery_of_reviseAll hresult, ?_⟩
    · rw [← (Prod.mk.inj h).2]
    · refine ⟨fun hsame => (retraceQueryThrough_eq_some_self_iff queryPath).1
        fun diagnostic _ => hsame diagnostic, fun hnone diagnostic => ?_⟩
      rw [retraceQuery?, hnone]
      rfl

/-- The model that `declaredText` holds. -/
def declaredModel : Model where
  nodes := #[{ kind := .nta, children := [1, 2] },
    { kind := .declaration, parent := some 0, text := some ['b'],
      slot := some ⟨⟨18, 19⟩, false, ['b']⟩ },
    { kind := .system, parent := some 0, text := some ['a'],
      slot := some ⟨⟨41, 42⟩, false, ['a']⟩ }]
  document := some declaredText

/-- After a phase has failed behind one that put a line in front of the system, diagnostics about
the declaration come back unchanged, and not all of those about the system do. -/
theorem retrace?_and_retraceQuery?_of_error_stoppingBehind :
    (∃ fault after, stoppingBehind.mapModel declaredText = (.error fault, after) ∧
      (∀ diagnostic : Diagnostic, diagnostic.path = "/nta/declaration" →
        after.retrace? diagnostic = some diagnostic) ∧
      ¬∀ diagnostic : Diagnostic, diagnostic.path = "/nta/system" →
        after.retrace? diagnostic = some diagnostic) ∧
    ∃ fault after, stoppingBehind.mapQuery [] = (.error fault, after) ∧
      ¬∀ diagnostic : Diagnostic, after.retraceQuery? diagnostic = some diagnostic := by
  obtain ⟨hmodel, hquery⟩ := retrace?_and_retraceQuery?_of_error stoppingBehind
  refine ⟨?_, ?_⟩
  · obtain ⟨fault, after, hmap⟩ := Except.exists_eq_error
      (stoppingBehind.mapModel declaredText) (by decide +kernel)
    refine ⟨fault, after, hmap, ?_⟩
    have hread : stoppingBehind.format.read (splitPreamble declaredText).2 = .ok declaredModel := by
      rw [← Except.toOption_eq_some]
      decide +kernel
    have hstages : (stoppingBehind.stages declaredModel).map (fun stage =>
        (stage.outcome.layer.get? "/nta/declaration",
          (stage.outcome.layer.get? "/nta/system").isSome)) = [(none, true)] := by
      decide +kernel
    obtain ⟨stage, hstage, hlayer⟩ := List.map_eq_singleton_iff.1 hstages
    obtain ⟨hdeclaration, hsystem⟩ := Prod.mk.inj hlayer
    obtain ⟨-, ⟨hunread, -⟩ | ⟨model, run, hread', -, -, -, hpath⟩⟩ := hmodel hmap
    · rw [hread] at hunread
      cases hunread
    · obtain rfl := Except.ok.inj (hread.symm.trans hread')
      rw [hpath, hpath, hstage]
      refine ⟨by simpa using hdeclaration, fun h => ?_⟩
      rw [h stage (List.mem_singleton_self stage)] at hsystem
      cases hsystem
  · obtain ⟨fault, after, hmap⟩ := Except.exists_eq_error (stoppingBehind.mapQuery [])
      (by decide +kernel)
    refine ⟨fault, after, hmap, ?_⟩
    have hrevisions : (stoppingBehind.mapQuery []).2.revisions ≠ [] := by
      decide +kernel
    rw [hmap] at hrevisions
    obtain ⟨-, -, hkept⟩ := hquery hmap
    rwa [hkept]

/-- A request that failed is not undone: of the system, the session now gives the first column for
the second line, as if the line of the first phase had been put there; it did not before, and it is
not what was asked about. The same happens to a query. -/
theorem mapModel_and_mapQuery_stoppingBehind :
    (∃ fault after, stoppingBehind.mapModel declaredText = (.error fault, after) ∧
      ¬((∀ diagnostic, after.retrace? diagnostic = stoppingBehind.retrace? diagnostic) ∨
        ∀ diagnostic, after.retrace? diagnostic = some diagnostic)) ∧
    ∃ fault after, stoppingBehind.mapQuery [] = (.error fault, after) ∧
      ¬((∀ diagnostic, after.retraceQuery? diagnostic = stoppingBehind.retraceQuery? diagnostic) ∨
        ∀ diagnostic, after.retraceQuery? diagnostic = some diagnostic) := by
  refine ⟨?_, ?_⟩
  · obtain ⟨fault, after, hmap⟩ := Except.exists_eq_error
      (stoppingBehind.mapModel declaredText) (by decide +kernel)
    refine ⟨fault, after, hmap, ?_⟩
    have hlayers : (stoppingBehind.mapModel declaredText).2.layers = [⟨[("/nta/system", ⟨2,
        ⟨['a'], ['/', '/', '\n', 'a'], [⟨⟨0, 0⟩, ⟨0, 3⟩, ['/', '/', '\n'], .discarded⟩]⟩⟩)]⟩] := by
      decide +kernel
    rw [hmap] at hlayers
    let diagnostic : Diagnostic := ⟨"/nta/system", ⟨⟨2, 1⟩, ⟨2, 2⟩⟩, "", "", .recoverable, none⟩
    have hmoved : after.retrace? diagnostic ≠ some diagnostic := by
      rw [retrace?, hlayers]
      decide +kernel
    rintro (hsame | hsame)
    · exact hmoved (hsame diagnostic)
    · exact hmoved (hsame diagnostic)
  · obtain ⟨fault, after, hmap⟩ := Except.exists_eq_error (stoppingBehind.mapQuery [])
      (by decide +kernel)
    refine ⟨fault, after, hmap, ?_⟩
    have hrevisions : (stoppingBehind.mapQuery []).2.revisions =
        [⟨[], ['!'], [⟨⟨0, 0⟩, ⟨0, 1⟩, ['!'], .discarded⟩]⟩] := by
      decide +kernel
    rw [hmap] at hrevisions
    let diagnostic : Diagnostic := ⟨"/query", ⟨⟨1, 2⟩, ⟨1, 2⟩⟩, "", "", .recoverable, none⟩
    have hmoved : after.retraceQuery? diagnostic ≠ some diagnostic := by
      rw [retraceQuery?, hrevisions]
      decide +kernel
    rintro (hsame | hsame)
    · exact hmoved (hsame diagnostic)
    · exact hmoved (hsame diagnostic)

end Retrace.Session
