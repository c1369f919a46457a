import Retrace.Proofs.Model.Reading
import Retrace.Proofs.Phase
import Retrace.Proofs.Revision.Provenance
import Retrace.Session

/-!
# Tracing diagnostics through all phases

A mapped model comes with one layer for each phase, and a diagnostic about it is moved back through
these layers, the latest first. The layers and the models between them form a chain
(`Session.Chain`): every layer describes the model before it and was brought into that model. Along
the chain, every character that all phases kept is traced to where it stood in the text that was
read, and a diagnostic is lost exactly if some phase generated the text in which it begins
(`retrace?_of_mapModel`).

## Main definitions

* `Session.KeptThrough`: a character was kept by all phases;
* `Session.LostThrough`: a position gets lost on the way back.
-/

namespace Retrace

/-- The models that a format gives are trees. -/
structure Format.Lawful (format : Format) : Prop where
  /-- A model that is read is well-formed. -/
  wellFormed_of_read : ∀ {text model}, format.read text = .ok model → model.WellFormed

/-- The format of model documents is lawful. -/
theorem Format.lawful_markup : Format.markup.Lawful where
  wellFormed_of_read h := Model.wellFormed_of_read (Except.mapError_eq_ok.1 h)

namespace Session

/-- The phases that made these layers, the latest first, all kept a character of the text at a path:
it stands at the offset `after` behind the latest and stood at `before` ahead of the first. -/
def KeptThrough (path : String) (c : Char) : List Layer → (after before : Nat) → Prop
  | [], after, before => after = before
  | layer :: layers, after, before =>
    match layer.get? path with
    | none => KeptThrough path c layers after before
    | some revision => ∃ between, revision.Keeps c after between ∧
        KeptThrough path c layers between before

/-- Moving a position in the text at a path back through layers, the latest first, one comes to a
layer in which it lies strictly inside generated text of another length than what it replaced. -/
def LostThrough (path : String) : List Layer → Position → Prop
  | [], _ => False
  | layer :: layers, position =>
    match layer.get? path with
    | none => LostThrough path layers position
    | some revision => revision.Discards (revision.current.offset position) ∨
        ∃ before, revision.retrace? (revision.current.offset position) = some before ∧
          LostThrough path layers (revision.base.position before)

/-- A diagnostic is moved back through the latest revision first. -/
theorem retraceQueryThrough_cons_eq_some {revision : Revision} {revisions : List Revision}
    {diagnostic traced : Diagnostic} :
    retraceQueryThrough (revision :: revisions) diagnostic = some traced ↔
      ∃ middle, revision.retraceDiagnostic? diagnostic = some middle ∧
        retraceQueryThrough revisions middle = some traced := by
  rw [retraceQueryThrough, List.foldlM_cons]
  exact Option.bind_eq_some_iff

/-- Moving a diagnostic back through layers is moving it back through their revisions of the text it
is about. -/
theorem retraceThrough_eq_retraceQueryThrough (layers : List Layer) (diagnostic : Diagnostic) :
    retraceThrough layers diagnostic =
      retraceQueryThrough (layers.filterMap (·.get? diagnostic.path)) diagnostic := by
  induction layers generalizing diagnostic with
  | nil => rfl
  | cons layer later ih =>
    rw [retraceThrough, List.foldlM_cons, Layer.retrace?, List.filterMap_cons]
    cases hget : layer.get? diagnostic.path with
    | none => exact ih diagnostic
    | some revision =>
      dsimp only
      rw [retraceQueryThrough, List.foldlM_cons]
      cases hback : revision.retraceDiagnostic? diagnostic with
      | none => rfl
      | some traced =>
        -- What is moved back stays about the same text.
        obtain ⟨span, -, rfl⟩ := Option.map_eq_some_iff.1 hback
        exact ih _

/-! ## Chains of layers -/

/-- Layers, the latest first, lead from one model to another: each describes the model before it and
was brought into it. -/
inductive Chain (first : Model) : List Layer → Model → Prop
  | nil : Chain first [] first
  | cons {layer : Layer} {layers : List Layer} {middle last : Model} :
      Chain first layers middle → layer.Describes middle → layer.commit middle = .ok last →
      Chain first (layer :: layers) last

namespace Chain

variable {first last : Model} {layers : List Layer}

theorem wellFormed (h : Chain first layers last) (hfirst : first.WellFormed) : last.WellFormed := by
  induction h with
  | nil => exact hfirst
  | cons _ hlayer hcommit ih => exact (hlayer.committed ih hcommit).wellFormed ih

/-- The elements stay where they are. -/
theorem at_of_at (h : Chain first layers last) (hfirst : first.WellFormed) {node : NodeId}
    {path : Path} (hat : first.At node path) : last.At node path := by
  induction h with
  | nil => exact hat
  | cons hchain hlayer hcommit ih =>
    exact (hlayer.committed (hchain.wellFormed hfirst) hcommit).at_of_at ih

/-- Phases that all succeed continue a chain. -/
theorem passAll {passes : List (String × Pass)} {run result : Run} (hfirst : first.WellFormed)
    (h : Chain first run.layers run.model) (hrun : Run.passAll passes run = (result, none)) :
    Chain first result.layers result.model := by
  induction passes generalizing run with
  | nil =>
    obtain ⟨rfl, -⟩ := Prod.mk.inj hrun
    exact h
  | cons entry later ih =>
    obtain ⟨extension, pass⟩ := entry
    rw [Run.passAll] at hrun
    cases hpass : run.pass extension pass with
    | error fault =>
      rw [hpass] at hrun
      cases (Prod.mk.inj hrun).2
    | ok next =>
      rw [hpass] at hrun
      refine ih ?_ hrun
      unfold Run.pass at hpass
      split at hpass
      · cases hpass
      · rename_i outcome hphase
        split at hpass
        · cases hpass
        · rename_i model hcommit
          obtain rfl := Except.ok.inj hpass
          -- The layer of a phase is about the model that the phase was given.
          have hdescribes : outcome.layer.Describes run.model :=
            Phase.run_describes (h.wellFormed hfirst) hphase
          exact h.cons hdescribes hcommit

variable {node : NodeId} {path : Path} {start : Text}

/-- An element with a text has a text in every model of a chain. -/
theorem exists_text? (h : Chain first layers last) (hfirst : first.WellFormed)
    (hat : first.At node path) (hstart : first.text? node = some start) :
    ∃ text, last.text? node = some text := by
  induction h with
  | nil => exact ⟨start, hstart⟩
  | @cons layer layers middle last hchain hlayer hcommit ih =>
    obtain ⟨text, htext⟩ := ih
    have hmiddle := hchain.wellFormed hfirst
    cases hget : layer.get? path.render with
    | none =>
      rw [hlayer.text?_of_get?_eq_none hmiddle hcommit (hchain.at_of_at hfirst hat) hget]
      exact ⟨text, htext⟩
    | some revision =>
      exact ⟨_, hlayer.text?_of_get? hmiddle hcommit (hchain.at_of_at hfirst hat) hget⟩

/-- A diagnostic that begins at a character that all phases kept is traced to where this character
stood at the start. -/
theorem retraceThrough_of_keptThrough (h : Chain first layers last) (hfirst : first.WellFormed)
    (hat : first.At node path) (hstart : first.text? node = some start) {front back : Text}
    {c : Char} (hlast : last.text? node = some (front ++ c :: back)) {before : Nat}
    (hkept : KeptThrough path.render c layers (Text.size front) before) :
    (∃ front' back', start = front' ++ c :: back' ∧ Text.size front' = before) ∧
      ∀ diagnostic : Diagnostic, diagnostic.path = path.render →
        diagnostic.range.start = Text.position (front ++ c :: back) (Text.size front) →
        ∃ traced, retraceThrough layers diagnostic = some traced ∧ traced.path = path.render ∧
          traced.range.start = start.position before := by
  induction h generalizing front back with
  | nil =>
    obtain rfl := Option.some.inj (hstart.symm.trans hlast)
    obtain rfl : Text.size front = before := hkept
    exact ⟨⟨front, back, rfl, rfl⟩, fun diagnostic hpath hrange => ⟨diagnostic, rfl, hpath, hrange⟩⟩
  | @cons layer layers middle last hchain hlayer hcommit ih =>
    have hmiddle := hchain.wellFormed hfirst
    have hthere := hchain.at_of_at hfirst hat
    unfold KeptThrough at hkept
    cases hget : layer.get? path.render with
    | none =>
      rw [hget] at hkept
      rw [hlayer.text?_of_get?_eq_none hmiddle hcommit hthere hget] at hlast
      -- A phase that left the text alone leaves the diagnostic alone as well.
      obtain ⟨hbefore, htraced⟩ := ih hlast hkept
      refine ⟨hbefore, fun diagnostic hpath hrange => ?_⟩
      obtain ⟨traced, hretrace, htraced⟩ := htraced diagnostic hpath hrange
      refine ⟨traced, ?_, htraced⟩
      rw [← hretrace, retraceThrough, List.foldlM_cons, Layer.retrace?, hpath, hget]
      rfl
    | some revision =>
      rw [hget] at hkept
      obtain ⟨between, hkeeps, hkept⟩ := hkept
      rw [hlayer.text?_of_get? hmiddle hcommit hthere hget, Option.some.injEq] at hlast
      obtain ⟨text, htext, hreachable⟩ := hlayer.reachable_of_get? hmiddle hthere hget
      obtain ⟨-, ahead, behind, rfl, rfl⟩ := hreachable.eq_append_of_keeps hkeeps
      obtain ⟨hbefore, htraced⟩ := ih htext hkept
      refine ⟨hbefore, fun diagnostic hpath hrange => ?_⟩
      -- The diagnostic begins at the same place in the text as it was before this phase.
      have hoffset : revision.current.offset diagnostic.range.start = Text.size front := by
        rw [hrange, hlast, Text.offset_position]
        exact Text.isBoundary_iff.2 ⟨front, c :: back, rfl, rfl⟩
      obtain ⟨hdiscards, -⟩ | ⟨place, back, hplace, hback, -, hpath', hrange'⟩ :=
        hreachable.retraceDiagnostic?_cases diagnostic
      · -- A character that was kept is not lost.
        rw [hoffset, ← hreachable.retrace?_eq_none_iff, hreachable.retrace?_of_keeps hkeeps]
          at hdiscards
        · cases hdiscards
        · rw [hlast, Text.size_append]
          exact Nat.le_add_right ..
      · rw [hoffset, hreachable.retrace?_of_keeps hkeeps, Option.some.injEq] at hplace
        rw [← hplace] at hrange'
        obtain ⟨traced, hretrace, htraced⟩ := htraced back (hpath'.trans hpath) hrange'
        refine ⟨traced, ?_, htraced⟩
        rw [← hretrace, retraceThrough, List.foldlM_cons, Layer.retrace?, hpath, hget]
        dsimp only
        rw [hback]
        rfl

/-- A diagnostic about the text of an element is lost exactly if it begins in text that a phase
generated. -/
theorem retraceThrough_eq_none_iff (h : Chain first layers last) (hfirst : first.WellFormed)
    (hat : first.At node path) (diagnostic : Diagnostic) (hpath : diagnostic.path = path.render) :
    retraceThrough layers diagnostic = none ↔
      LostThrough path.render layers diagnostic.range.start := by
  induction h generalizing diagnostic with
  | nil => exact iff_of_false (Option.some_ne_none diagnostic) id
  | @cons layer layers middle last hchain hlayer hcommit ih =>
    have hmiddle := hchain.wellFormed hfirst
    have hthere := hchain.at_of_at hfirst hat
    rw [retraceThrough, List.foldlM_cons, Layer.retrace?, hpath, LostThrough]
    cases hget : layer.get? path.render with
    | none => exact ih diagnostic hpath
    | some revision =>
      obtain ⟨text, htext, hreachable⟩ := hlayer.reachable_of_get? hmiddle hthere hget
      dsimp only
      obtain ⟨hdiscards, hnone⟩ | ⟨place, back, hplace, hback, hkept, hpath', hrange'⟩ :=
        hreachable.retraceDiagnostic?_cases diagnostic
      · rw [hnone]
        exact iff_of_true rfl (Or.inl hdiscards)
      · -- It is not lost here, so the earlier phases decide.
        rw [hback, hplace, or_iff_right hkept]
        simp only [Option.some.injEq, exists_eq_left']
        rw [hreachable.base_eq, ← hrange']
        exact ih back (hpath'.trans hpath)

end Chain

/-! ## Mapped models -/

/-- The model that the phases of a session make of a model. -/
def transformed (session : Session) (model : Model) : Model :=
  (Run.passAll session.passes { model }).1.model

/-- What is known when a model that can be read was mapped: all phases succeeded, and their layers
lead to the model that was written. -/
theorem mapModel_eq_ok {session after : Session} {text : Text} {mapped : Mapped} {model : Model}
    (hformat : session.format.Lawful)
    (hread : session.format.read (splitPreamble text).2 = .ok model)
    (hmap : session.mapModel text = (.ok mapped, after)) :
    Chain model after.layers (session.transformed model) ∧
      ∃ body, session.format.write (session.transformed model) = .ok body ∧
        mapped.text = (splitPreamble text).1 ++ body := by
  unfold mapModel at hmap
  dsimp only at hmap
  rw [hread] at hmap
  cases hrun : Run.passAll session.passes { model } with
  | mk run fault? =>
    rw [transformed, hrun]
    simp only [hrun] at hmap
    cases fault? with
    | some fault => cases (Prod.mk.inj hmap).1
    | none =>
      dsimp only at hmap
      split at hmap
      · cases (Prod.mk.inj hmap).1
      · rename_i body hwrite
        obtain ⟨hmapped, rfl⟩ := Prod.mk.inj hmap
        obtain rfl := Except.ok.inj hmapped
        exact ⟨Chain.nil.passAll (hformat.wellFormed_of_read hread) hrun, body, hwrite, rfl⟩

/-- After a model was mapped, every element with a text still has one. A diagnostic that begins at a
character of this text that all phases kept is traced to the place where the character stood in the
text that was read, and a diagnostic about the text is lost exactly if, on its way back, it begins
strictly inside text that a phase generated with another length than what it replaced. -/
theorem retrace?_of_mapModel {session after : Session} {text : Text} {mapped : Mapped}
    {model : Model} (hformat : session.format.Lawful)
    (hread : session.format.read (splitPreamble text).2 = .ok model)
    (hmap : session.mapModel text = (.ok mapped, after)) :
    (∃ body, session.format.write (session.transformed model) = .ok body ∧
      mapped.text = (splitPreamble text).1 ++ body) ∧
    ∀ {node : NodeId} {path : Path} {first : Text}, model.At node path →
      model.text? node = some first →
      ∃ last, (session.transformed model).At node path ∧
        (session.transformed model).text? node = some last ∧
        (∀ {front back : Text} {c : Char} {before : Nat}, last = front ++ c :: back →
          KeptThrough path.render c after.layers (Text.size front) before →
          (∃ front' back', first = front' ++ c :: back' ∧ Text.size front' = before) ∧
          ∀ diagnostic : Diagnostic, diagnostic.path = path.render →
            diagnostic.range.start = last.position (Text.size front) →
            ∃ traced, after.retrace? diagnostic = some traced ∧ traced.path = path.render ∧
              traced.range.start = first.position before) ∧
        ∀ diagnostic : Diagnostic, diagnostic.path = path.render →
          (after.retrace? diagnostic = none ↔
            LostThrough path.render after.layers diagnostic.range.start) := by
  obtain ⟨hchain, hwritten⟩ := mapModel_eq_ok hformat hread hmap
  have hmodel := hformat.wellFormed_of_read hread
  refine ⟨hwritten, fun {node path first} hat hfirst => ?_⟩
  obtain ⟨last, hlast⟩ := hchain.exists_text? hmodel hat hfirst
  refine ⟨last, hchain.at_of_at hmodel hat, hlast, ?_, ?_⟩
  · rintro front back c before rfl hkept
    exact hchain.retraceThrough_of_keptThrough hmodel hat hfirst hlast hkept
  · exact fun diagnostic hpath => hchain.retraceThrough_eq_none_iff hmodel hat diagnostic hpath

/-- A model with a text of one character. -/
def plainText : Text :=
  "<nta><system>a</system></nta>".toList

/-- The model that `plainText` holds. -/
def plainModel : Model where
  nodes := #[{ kind := .nta, children := [1] },
    { kind := .system, parent := some 0, text := some ['a'],
      slot := some ⟨⟨13, 14⟩, false, ['a']⟩ }]
  document := some plainText

/-- A phase that puts a line in front of the system. -/
def prepending : Pass :=
  Phase.toPass <| Phase.onEnter ⟨"prepend", (), [], []⟩ .system [] fun _ => do
    Handling.replace ⟨0, 0⟩ ['/', '/', '\n'] .discarded
    pure []

/-- A session that runs this phase twice. -/
def prependingTwice : Session where
  extensions := [("prepend", { id := "prepend", passes := [prepending, prepending] })]

/-- Behind two lines that two phases put in front of it, the only character of a text is still
traced to the first column of the first line. -/
theorem retrace?_of_mapModel_prependingTwice :
    prependingTwice.format.Lawful ∧
      prependingTwice.format.read (splitPreamble plainText).2 = .ok plainModel ∧
      ∃ mapped after, prependingTwice.mapModel plainText = (.ok mapped, after) ∧
        ∃ traced, after.retrace? ⟨"/nta/system", ⟨⟨3, 1⟩, ⟨3, 2⟩⟩, "", "", .recoverable, none⟩ =
          some traced ∧ traced.range.start = ⟨1, 1⟩ := by
  have hformat : prependingTwice.format.Lawful := Format.lawful_markup
  have hread : prependingTwice.format.read (splitPreamble plainText).2 = .ok plainModel := by
    rw [← Except.toOption_eq_some]
    decide +kernel
  obtain ⟨mapped, hmapped⟩ : ∃ mapped, (prependingTwice.mapModel plainText).1 = .ok mapped := by
    refine ⟨⟨"<nta><system>//\n//\na</system></nta>".toList, []⟩, ?_⟩
    rw [← Except.toOption_eq_some]
    decide +kernel
  obtain ⟨after, hafter⟩ : ∃ after, (prependingTwice.mapModel plainText).2 = after := ⟨_, rfl⟩
  have hmap : prependingTwice.mapModel plainText = (.ok mapped, after) := Prod.ext hmapped hafter
  have hlayers : after.layers =
      [⟨[("/nta/system", ⟨1, ⟨['/', '/', '\n', 'a'], ['/', '/', '\n', '/', '/', '\n', 'a'],
          [⟨⟨0, 0⟩, ⟨0, 3⟩, ['/', '/', '\n'], .discarded⟩]⟩⟩)]⟩,
        ⟨[("/nta/system", ⟨1, ⟨['a'], ['/', '/', '\n', 'a'],
          [⟨⟨0, 0⟩, ⟨0, 3⟩, ['/', '/', '\n'], .discarded⟩]⟩⟩)]⟩] := by
    rw [← hafter]
    decide +kernel
  have hat : plainModel.At 1 ⟨[⟨.nta, none⟩, ⟨.system, none⟩]⟩ :=
    .child .root (by decide +kernel)
  have hrender : Path.render ⟨[⟨.nta, none⟩, ⟨.system, none⟩]⟩ = "/nta/system" := by
    decide +kernel
  have hfinal : (prependingTwice.transformed plainModel).text? 1 =
      some (['/', '/', '\n', '/', '/', '\n'] ++ 'a' :: []) := by
    decide +kernel
  have hplain : plainModel.text? 1 = some ['a'] := by
    decide +kernel
  have hkept : KeptThrough (Path.render ⟨[⟨.nta, none⟩, ⟨.system, none⟩]⟩) 'a' after.layers 6
      0 := by
    rw [hlayers, hrender]
    have hlater : (Revision.mk ['/', '/', '\n', 'a'] ['/', '/', '\n', '/', '/', '\n', 'a']
        [⟨⟨0, 0⟩, ⟨0, 3⟩, ['/', '/', '\n'], .discarded⟩]).Keeps 'a' 6 3 :=
      ⟨Tracked.ofInserted ['/', '/', '\n'] ++ Tracked.ofKept 0 ['/', '/', '\n'], [], rfl, by decide⟩
    have hearlier : (Revision.mk ['a'] ['/', '/', '\n', 'a']
        [⟨⟨0, 0⟩, ⟨0, 3⟩, ['/', '/', '\n'], .discarded⟩]).Keeps 'a' 3 0 :=
      ⟨Tracked.ofInserted ['/', '/', '\n'], [], rfl, by decide⟩
    exact ⟨3, hlater, 0, hearlier, rfl⟩
  refine ⟨hformat, hread, mapped, after, hmap, ?_⟩
  obtain ⟨-, htrace⟩ := retrace?_of_mapModel hformat hread hmap
  obtain ⟨last, -, hlast, htraced, -⟩ := htrace hat hplain
  obtain rfl := Option.some.inj (hlast.symm.trans hfinal)
  obtain ⟨-, htraced⟩ := htraced rfl hkept
  obtain ⟨traced, hretrace, -, hstart⟩ := htraced
    ⟨"/nta/system", ⟨⟨3, 1⟩, ⟨3, 2⟩⟩, "", "", .recoverable, none⟩ hrender.symm (by decide +kernel)
  exact ⟨traced, hretrace, hstart.trans (by decide +kernel)⟩

end Session

end Retrace
