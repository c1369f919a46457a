import Retrace.Handler
import Retrace.Proofs.Model.Patch
import Retrace.Proofs.Revision.Ascending
import Retrace.Proofs.Revision.Strand

/-!
# Handlers that succeed

Whether a handler succeeds depends on the edits that were made to the text of its element before.
`Handling.Succeeds` says from which revisions a handling succeeds and which it leaves behind; a
handling in several steps is judged step by step. In particular, replacing spans of the text that
lie one behind the other succeeds if no edit was made before (`Handling.succeeds_forM`). What the
text becomes is known if the edits are patches that turn it into another one
(`Handling.exists_carryOut_of_turns`).
-/

namespace Retrace

/-- Edits are carried out one computation after the other. -/
theorem Editing.carryOut_bind {α β : Type} {text? : Option Text} {textless : EditError}
    (editing : Editing α) (continuation : α → Editing β) (revision? : Option Revision) :
    (editing >>= continuation).carryOut text? textless revision? =
      (continuation (editing.carryOut text? textless revision?).1).carryOut text? textless
        (editing.carryOut text? textless revision?).2 := by
  show (editing.andThen continuation).carryOut text? textless revision? = _
  induction editing generalizing revision? with
  | done result => rfl
  | replace range inserted inside next ih =>
    cases text? with
    | none => exact ih _ _
    | some text =>
      simp only [andThen, carryOut]
      -- What is known of a refusal is handed on, whatever it is.
      cases (revision?.getD (.ofText text)).replace range inserted inside with
      | ok revised => exact ih _ _
      | error error => exact ih _ _

namespace Handling

variable {σ α β : Type}

/-- Carried out with a revision that satisfies one condition, whatever the state, a handling
succeeds and leaves a revision that satisfies another. -/
def Succeeds (visit : Visit) (before : Option Revision → Prop) (handling : Handling σ α)
    (after : Option Revision → Prop) : Prop :=
  ∀ state revision?, before revision? → ∃ a state' revised?,
    handling.carryOut visit state revision? = ((.ok a, state'), revised?) ∧ after revised?

variable {visit : Visit} {before middle after : Option Revision → Prop}

theorem Succeeds.mono {handling : Handling σ α} (h : Succeeds visit before handling after)
    {before' after' : Option Revision → Prop} (hbefore : ∀ r, before' r → before r)
    (hafter : ∀ r, after r → after' r) : Succeeds visit before' handling after' := by
  intro state revision? hrevision
  obtain ⟨a, state', revised?, hrun, hrevised⟩ := h state revision? (hbefore _ hrevision)
  exact ⟨a, state', revised?, hrun, hafter _ hrevised⟩

theorem succeeds_pure (a : α) : Succeeds visit before (pure a : Handling σ α) before :=
  fun state revision? h => ⟨a, state, revision?, rfl, h⟩

theorem succeeds_get : Succeeds visit before (get : Handling σ σ) before :=
  fun state revision? h => ⟨state, state, revision?, rfl, h⟩

theorem succeeds_modify (change : σ → σ) :
    Succeeds visit before (modify change : Handling σ PUnit) before :=
  fun state revision? h => ⟨⟨⟩, change state, revision?, rfl, h⟩

/-- What comes of a handling in two steps if the first one succeeds. -/
theorem carryOut_bind {first : Handling σ α} (second : α → Handling σ β) {state state' : σ}
    {revision? between? : Option Revision} {a : α}
    (h : first.carryOut visit state revision? = ((.ok a, state'), between?)) :
    (first >>= second).carryOut visit state revision? =
      (second a).carryOut visit state' between? := by
  unfold carryOut at h ⊢
  rw [ExceptT.run_bind, StateT.run_bind, Editing.carryOut_bind, h]

/-- A handling in two steps that succeeds has succeeded in both of them. -/
theorem exists_of_carryOut_bind {first : Handling σ α} {second : α → Handling σ β}
    {state state' : σ} {revision? revised? : Option Revision} {b : β}
    (h : (first >>= second).carryOut visit state revision? = ((.ok b, state'), revised?)) :
    ∃ a middle between?, first.carryOut visit state revision? = ((.ok a, middle), between?) ∧
      (second a).carryOut visit middle between? = ((.ok b, state'), revised?) := by
  rcases hfirst : first.carryOut visit state revision? with ⟨⟨result, middle⟩, between?⟩
  cases result with
  | ok a => exact ⟨a, middle, between?, rfl, (carryOut_bind second hfirst).symm.trans h⟩
  | error fault =>
    unfold carryOut at h hfirst
    rw [ExceptT.run_bind, StateT.run_bind, Editing.carryOut_bind, hfirst] at h
    cases (Prod.mk.inj (Prod.mk.inj h).1).1

theorem succeeds_bind {first : Handling σ α} {second : α → Handling σ β}
    (hfirst : Succeeds visit before first middle)
    (hsecond : ∀ a, Succeeds visit middle (second a) after) :
    Succeeds visit before (first >>= second) after := by
  intro state revision? h
  obtain ⟨a, state', between?, hrun, hbetween⟩ := hfirst state revision? h
  obtain ⟨b, state'', revised?, hrun', hrevised⟩ := hsecond a state' between? hbetween
  exact ⟨b, state'', revised?, (carryOut_bind _ hrun).trans hrun', hrevised⟩

/-! ## Edits -/

/-- The edits made to a text so far, if there are any, end at an offset or ahead of it. -/
def Passed (text : Text) (offset : Nat) (revision? : Option Revision) : Prop :=
  ∀ revision ∈ revision?, revision.UpTo text offset

variable {text : Text} {offset : Nat}

/-- An edit that is accepted. -/
theorem carryOut_replace (htext : visit.text? = some text) {revision? : Option Revision}
    {revised : Revision} {range : Span} {inserted : Text} {inside : Inside}
    (h : (revision?.getD (.ofText text)).replace range inserted inside = .ok revised) (state : σ) :
    (replace range inserted inside : Handling σ Unit).carryOut visit state revision? =
      ((.ok (), state), some revised) := by
  unfold carryOut
  show Editing.carryOut visit.text? _ (.replace range inserted inside _) revision? = _
  rw [htext, Editing.carryOut]
  dsimp only
  rw [h]
  rfl

/-- An edit leaves the state alone. -/
theorem state_of_carryOut_replace {range : Span} {inserted : Text} {inside : Inside}
    {state state' : σ} {revision? revised? : Option Revision}
    (h : (replace range inserted inside : Handling σ Unit).carryOut visit state revision? =
      ((.ok (), state'), revised?)) : state' = state := by
  unfold carryOut at h
  change Editing.carryOut visit.text? _ (.replace range inserted inside _) revision? = _ at h
  generalize visit.text? = text? at h
  cases text? with
  | none => cases (Prod.mk.inj (Prod.mk.inj h).1).1
  | some text =>
    rw [Editing.carryOut] at h
    dsimp only at h
    split at h
    · exact (Prod.mk.inj (Prod.mk.inj h).1).2.symm
    · cases (Prod.mk.inj (Prod.mk.inj h).1).1

/-- So do steps that each make one edit at most. -/
theorem state_of_carryOut_forM {steps : List α} {act : α → Handling σ Unit}
    (hact : ∀ step, act step = pure () ∨
      ∃ range inserted inside, act step = replace range inserted inside)
    {state state' : σ} {revision? revised? : Option Revision}
    (h : carryOut (forM steps act) visit state revision? = ((.ok (), state'), revised?)) :
    state' = state := by
  induction steps generalizing state revision? with
  | nil => exact (Prod.mk.inj (Prod.mk.inj h).1).2.symm
  | cons step later ih =>
    rw [List.forM_cons] at h
    obtain ⟨_, middle, between?, hfirst, hlater⟩ := exists_of_carryOut_bind h
    rw [ih hlater]
    rcases hact step with hpure | ⟨range, inserted, inside, hreplace⟩
    · rw [hpure] at hfirst
      exact (Prod.mk.inj (Prod.mk.inj hfirst).1).2.symm
    · rw [hreplace] at hfirst
      exact state_of_carryOut_replace hfirst

/-- Replacing a span behind all earlier edits succeeds. -/
theorem succeeds_replace (htext : visit.text? = some text) {range : Span}
    (hrange : range.Within text offset (Text.size text)) (inserted : Text) (inside : Inside) :
    Succeeds visit (Passed text offset) (replace range inserted inside : Handling σ Unit)
      (Passed text range.stop) := by
  intro state revision? h
  -- The first edit begins a revision of the text, later ones go on with it.
  have hbegun : (revision?.getD (.ofText text)).UpTo text offset := by
    cases revision? with
    | none => exact .ofText text offset
    | some revision => exact h revision rfl
  obtain ⟨revised, hreplace, hrevised⟩ := hbegun.exists_replace hrange inserted inside
  exact ⟨(), state, some revised, carryOut_replace htext hreplace state,
    fun revision hmem => Option.some.inj hmem ▸ hrevised⟩

/-- Steps that each replace a span of their own, or nothing, succeed if the spans lie one behind the
other, behind all earlier edits. -/
theorem succeeds_forM (htext : visit.text? = some text) {steps : List α} {span : α → Span}
    (hspans : Span.Ascending text (steps.map span))
    (hbehind : ∀ step ∈ steps, offset ≤ (span step).start) {act : α → Handling σ Unit}
    (hact : ∀ step, act step = pure () ∨
      ∃ inserted inside, act step = replace (span step) inserted inside) :
    Succeeds visit (Passed text offset) (forM steps act) fun _ => True := by
  induction steps generalizing offset with
  | nil => exact (succeeds_pure ()).mono (fun _ h => h) fun _ _ => trivial
  | cons step later ih =>
    obtain ⟨hfirst, hlater⟩ := List.forall_mem_cons.1 hbehind
    rw [List.map_cons, Span.Ascending.cons_iff, List.forall_mem_map] at hspans
    obtain ⟨hstep, hstop, hspans⟩ := hspans
    rw [List.forM_cons]
    rcases hact step with hpure | ⟨inserted, inside, hreplace⟩
    · rw [hpure]
      exact succeeds_bind (succeeds_pure ()) fun _ => ih hspans hlater
    · rw [hreplace]
      have hrange : (span step).Within text offset (Text.size text) :=
        { hstep with start_le := hfirst }
      exact succeeds_bind (succeeds_replace htext hrange inserted inside) fun _ =>
        ih hspans hstop

/-- In a text that has not been edited, such steps succeed wherever the first span lies. -/
theorem succeeds_forM_of_none (htext : visit.text? = some text) {steps : List α} {span : α → Span}
    (hspans : Span.Ascending text (steps.map span)) {act : α → Handling σ Unit}
    (hact : ∀ step, act step = pure () ∨
      ∃ inserted inside, act step = replace (span step) inserted inside) :
    Succeeds visit (· = none) (forM steps act) fun _ => True := by
  refine (succeeds_forM htext hspans (fun _ _ => Nat.zero_le _) hact).mono ?_ fun _ h => h
  rintro revision? rfl
  exact nofun

/-! ## Edits given as patches -/

section Patches

variable {patches : List Patch} {old new : Text}

/-- Patches that turn what is left of a text into another text are made as edits, one after the
other, and become the strands of the revision. -/
theorem exists_carryOut_of_turns (h : Patch.Turns patches offset old new) (inside : Inside)
    (strands : List Strand) (hoffset : offset = Text.size (Strand.bases strands))
    (htext : visit.text? = some (Strand.bases strands ++ old)) (state : σ)
    (revision? : Option Revision)
    (hrevision : revision?.getD (.ofText (Strand.bases strands ++ old)) =
      (Weave.mk strands old).revision) :
    ∃ revised? added tail,
      carryOut (forM patches fun patch => replace patch.span patch.text inside) visit state
        revision? = ((.ok (), state), revised?) ∧
      revised?.getD (.ofText (Strand.bases strands ++ old)) =
        (Weave.mk (strands ++ added) tail).revision ∧
      old = Strand.bases added ++ tail ∧ new = Strand.currents added ++ tail ∧
      (∀ after, (Strand.edits offset after added).map (fun edit =>
        (⟨edit.before, edit.inserted⟩ : Patch)) = patches) ∧
      ∀ strand ∈ added, strand.inside = inside := by
  induction h generalizing strands revision? with
  | keep text =>
    exact ⟨revision?, [], text, rfl, by rw [hrevision, List.append_nil], rfl, rfl, fun _ => rfl,
      nofun⟩
  | @replace later offset start stop kept covered put old new hstart hstop hlater ih =>
    subst hoffset hstart hstop
    -- The first patch becomes one more strand, behind which the later ones are made.
    have hbases : Strand.bases (strands ++ [⟨kept, covered, put, inside⟩]) ++ old =
        Strand.bases strands ++ (kept ++ (covered ++ old)) := by
      simp [Strand.bases_append]
    have hreplace := Weave.replace_revision strands ⟨kept, covered, put, inside⟩ old
    rw [← hrevision] at hreplace
    obtain ⟨revised?, added, tail, hrun, hrevised, rfl, rfl, hpatches, hinside⟩ :=
      ih (strands ++ [⟨kept, covered, put, inside⟩])
        (by simp [Strand.bases_append, Nat.add_assoc]) (by rw [htext, hbases])
        (some (Weave.extend strands ⟨kept, covered, put, inside⟩ old).revision) rfl
    refine ⟨revised?, ⟨kept, covered, put, inside⟩ :: added, tail, ?_, ?_, by simp, by simp,
      fun after => ?_, List.forall_mem_cons.2 ⟨rfl, hinside⟩⟩
    · rw [List.forM_cons, carryOut_bind _ (carryOut_replace htext hreplace state)]
      exact hrun
    · rw [hbases] at hrevised
      rw [hrevised, List.append_assoc, List.singleton_append]
    · rw [Strand.edits, List.map_cons]
      exact congrArg (_ :: ·) (hpatches _)

/-- The same for all of the text of an element. -/
theorem exists_weave_of_turns_text (htext : visit.text? = some text)
    (h : Patch.Turns patches 0 text new) (inside : Inside) (state : σ) :
    ∃ (revised? : Option Revision) (weave : Weave),
      carryOut (forM patches fun patch => replace patch.span patch.text inside) visit state none =
        ((.ok (), state), revised?) ∧
      revised?.getD (.ofText text) = weave.revision ∧ weave.revision.base = text ∧
      weave.revision.current = new ∧
      weave.revision.edits.map (fun edit => (⟨edit.before, edit.inserted⟩ : Patch)) = patches ∧
      ∀ strand ∈ weave.strands, strand.inside = inside := by
  obtain ⟨revised?, added, tail, hrun, hrevised, rfl, rfl, hpatches, hinside⟩ :=
    exists_carryOut_of_turns h inside [] rfl htext state none rfl
  exact ⟨revised?, ⟨added, tail⟩, hrun, hrevised, rfl, rfl, hpatches 0, hinside⟩

/-- Patches that turn the text of an element into another are made as edits of a fresh text. -/
theorem exists_carryOut_of_turns_text (htext : visit.text? = some text)
    (h : Patch.Turns patches 0 text new) (inside : Inside) (state : σ) :
    ∃ revised?, carryOut (forM patches fun patch => replace patch.span patch.text inside) visit
        state none = ((.ok (), state), revised?) ∧
      (revised?.map Revision.current).getD text = new := by
  obtain ⟨revised?, weave, hrun, hrevised, hbase, rfl, -⟩ :=
    exists_weave_of_turns_text htext h inside state
  refine ⟨revised?, hrun, ?_⟩
  rw [← hrevised]
  cases revised? with
  | none => rfl
  | some revised => rfl

end Patches

end Handling

end Retrace
