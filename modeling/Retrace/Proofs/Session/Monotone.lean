import Retrace.Proofs.Revision.Monotone
import Retrace.Proofs.Session.Stages

/-!
# Tracing back through all phases keeps the order

The layers of a session move diagnostics about one element back through the revisions of its text,
and each of these keeps the order in which diagnostics begin. So what begins further behind in a
mapped model does not begin further ahead in the model that was sent
(`Session.retrace?_mono_of_mapModel`). Nothing has to be known about the model for this, only that
the revisions were made by edits that were accepted (`Phase.isAccepted_of_run`).
-/

namespace Retrace

/-! ## Layers of accepted edits -/

namespace Layer

variable {layer : Layer} {path : String}

/-- The revisions of a layer were made by edits that were accepted. -/
def IsAccepted (layer : Layer) : Prop :=
  ∀ entry ∈ layer.fields, ∃ text, entry.2.revision.Reachable text

theorem IsAccepted.exists_reachable (h : layer.IsAccepted) {revision : Revision}
    (hget : layer.get? path = some revision) : ∃ text, revision.Reachable text := by
  obtain ⟨revised, hmem, rfl⟩ := exists_mem_of_get? hget
  exact h _ hmem

theorem IsAccepted.put (h : layer.IsAccepted) {revised : RevisedText} {text : Text}
    (hrevised : revised.revision.Reachable text) : (layer.put path revised).IsAccepted := by
  intro entry hentry
  rcases mem_putInto hentry with rfl | hentry
  · exact ⟨text, hrevised⟩
  · exact h entry hentry

end Layer

/-- Whatever its handlers do, a phase makes its revisions by edits that are accepted. -/
theorem Phase.isAccepted_of_run {σ : Type} {phase : Phase σ} {model : Model} {blocked : List String}
    {outcome : Outcome} (h : (phase.run model blocked).1 = .ok outcome) :
    outcome.layer.IsAccepted := by
  refine layer_of_run Layer.IsAccepted (fun _ hentry => (List.not_mem_nil hentry).elim)
    (fun {node path} _ handler => ?_) h
  refine preserves_call Layer.IsAccepted fun progress hlayer => ?_
  -- The handler begins a revision or goes on with one of the layer.
  have hcarried : ∀ revision ∈ (carried ⟨model, node, path⟩ handler progress).2,
      ∃ text, Revision.Reachable text revision :=
    Editing.carryOut_preserves (fun text _ => ⟨text, .ofText⟩)
      (fun ⟨text, hrevision⟩ hreplace => ⟨text, hrevision.replace hreplace⟩)
      (fun _ hget => hlayer.exists_reachable hget)
  cases hrevision : (carried ⟨model, node, path⟩ handler progress).2 with
  | none => exact hlayer
  | some revision =>
    obtain ⟨text, hreachable⟩ := hcarried revision hrevision
    exact hlayer.put hreachable

/-! ## Moving diagnostics back -/

namespace Session

variable {session : Session} {text : Text} {first second first' second' : Diagnostic}

/-- Revisions of one text, one made on top of the other, keep the order in which diagnostics
begin. -/
theorem retraceQueryThrough_mono {revisions : List Revision}
    (hrevisions : ∀ revision ∈ revisions, ∃ text, revision.Reachable text)
    (hline : 1 ≤ first.range.start.line) (hle : first.range.start ≤ second.range.start)
    (h : retraceQueryThrough revisions first = some first')
    (h' : retraceQueryThrough revisions second = some second') :
    first'.range.start ≤ second'.range.start := by
  induction revisions generalizing first second with
  | nil =>
    obtain rfl := Option.some.inj h
    obtain rfl := Option.some.inj h'
    exact hle
  | cons revision later ih =>
    obtain ⟨⟨text, hrevision⟩, hlater⟩ := List.forall_mem_cons.1 hrevisions
    obtain ⟨middle, hmiddle, h⟩ := retraceQueryThrough_cons_eq_some.1 h
    obtain ⟨middle', hmiddle', h'⟩ := retraceQueryThrough_cons_eq_some.1 h'
    -- What was moved back begins on a line of a text, so the lines are still counted from one.
    obtain ⟨offset, hstart⟩ := Revision.exists_position_of_retraceDiagnostic? hmiddle
    refine ih hlater ?_ (hrevision.retraceDiagnostic?_mono hline hle hmiddle hmiddle') h h'
    rw [hstart]
    exact Text.one_le_line_position _ offset

/-- What a session keeps of a model was made by edits that were accepted. -/
theorem isAccepted_of_mapModel (session : Session) (text : Text) :
    ∀ layer ∈ (session.mapModel text).2.layers, layer.IsAccepted := by
  intro layer hlayer
  rw [layers_mapModel] at hlayer
  split at hlayer
  · cases hlayer
  · rw [List.mem_reverse] at hlayer
    obtain ⟨stage, -, rfl⟩ := List.mem_map.1 hlayer
    exact Phase.isAccepted_of_run stage.ran

/-- Once a session has mapped a model, it keeps diagnostics in order: if of two diagnostics about
one element the second one does not begin ahead of the first, be it in the mapped text or outside,
and both are moved back, then the second one still does not begin ahead of the first. -/
theorem retrace?_mono_of_mapModel (hpath : first.path = second.path)
    (hline : 1 ≤ first.range.start.line) (hle : first.range.start ≤ second.range.start)
    (h : (session.mapModel text).2.retrace? first = some first')
    (h' : (session.mapModel text).2.retrace? second = some second') :
    first'.range.start ≤ second'.range.start := by
  have hlayers := session.isAccepted_of_mapModel text
  rw [retrace?, retraceThrough_eq_retraceQueryThrough] at h h'
  -- Both go back through the revisions of the same text.
  rw [← hpath] at h'
  refine retraceQueryThrough_mono (fun revision hrevision => ?_) hline hle h h'
  obtain ⟨layer, hlayer, hget⟩ := List.mem_filterMap.1 hrevision
  exact (hlayers layer hlayer).exists_reachable hget

/-- A phase that spells the first letter of the system, one of two bytes, with two letters. -/
def respelling : Pass :=
  Phase.toPass <| Phase.onEnter ⟨"respell", (), [], []⟩ .system [] fun _ => do
    Handling.replace ⟨0, 2⟩ ['o', 'e'] .discarded
    pure []

/-- A session that runs this phase and then puts a line in front of the system. -/
def respellingFirst : Session where
  extensions := [("respell", { id := "respell", passes := [respelling, prepending] })]

/-- The second of the two letters is traced to the letter they stand for, and a place far outside
the text to its end. -/
theorem retrace?_mono_of_mapModel_respellingFirst :
    ∃ mapped after, respellingFirst.mapModel "<nta><system>ö\nb</system></nta>".toList =
        (.ok mapped, after) ∧ mapped.text = "<nta><system>//\noe\nb</system></nta>".toList ∧
      ∃ first' second',
        after.retrace? ⟨"/nta/system", ⟨⟨2, 2⟩, ⟨2, 3⟩⟩, "", "", .recoverable, none⟩ =
          some first' ∧ first'.range.start = ⟨1, 1⟩ ∧
        after.retrace? ⟨"/nta/system", ⟨⟨9, 18446744073709551615⟩, {}⟩, "", "", .recoverable, none⟩ =
          some second' ∧ second'.range.start = ⟨2, 2⟩ ∧
        first'.range.start ≤ second'.range.start := by
  obtain ⟨after, hafter⟩ : ∃ after,
      (respellingFirst.mapModel "<nta><system>ö\nb</system></nta>".toList).2 = after := ⟨_, rfl⟩
  have hmapped : (respellingFirst.mapModel "<nta><system>ö\nb</system></nta>".toList).1 =
      .ok ⟨"<nta><system>//\noe\nb</system></nta>".toList, []⟩ := by
    rw [← Except.toOption_eq_some]
    decide +kernel
  have hlayers : after.layers =
      [⟨[("/nta/system", ⟨1, ⟨"oe\nb".toList, "//\noe\nb".toList,
          [⟨⟨0, 0⟩, ⟨0, 3⟩, "//\n".toList, .discarded⟩]⟩⟩)]⟩,
        ⟨[("/nta/system", ⟨1, ⟨"ö\nb".toList, "oe\nb".toList,
          [⟨⟨0, 2⟩, ⟨0, 2⟩, "oe".toList, .discarded⟩]⟩⟩)]⟩] := by
    rw [← hafter]
    decide +kernel
  have h : after.retrace? ⟨"/nta/system", ⟨⟨2, 2⟩, ⟨2, 3⟩⟩, "", "", .recoverable, none⟩ =
      some ⟨"/nta/system", ⟨⟨1, 1⟩, ⟨1, 2⟩⟩, "", "", .recoverable, none⟩ := by
    rw [retrace?, hlayers]
    decide +kernel
  have h' : after.retrace? ⟨"/nta/system", ⟨⟨9, 18446744073709551615⟩, {}⟩, "", "", .recoverable, none⟩ =
      some ⟨"/nta/system", ⟨⟨2, 2⟩, ⟨2, 2⟩⟩, "", "", .recoverable, none⟩ := by
    rw [retrace?, hlayers]
    decide +kernel
  refine ⟨_, after, Prod.ext hmapped hafter, rfl, _, _, h, rfl, h', rfl, ?_⟩
  rw [← hafter] at h h'
  exact retrace?_mono_of_mapModel (by rfl) (by decide) (by decide) h h'

end Session

end Retrace
