import Retrace.Proofs.Extension.ArrayInit.Walk
import Retrace.Proofs.Extension.TextualQuantifiers.Formulas
import Retrace.Proofs.Session.Repetition
import Retrace.Proofs.Session.Standard

/-!
# Extensions in any order and any number of times

The phases of the library are about different kinds of elements: one about declarations, the other
one about formulas. Both leave nothing to be edited. So it does not matter in which order extensions
are listed, nor how often; and mapping a model once more changes nothing.

## Main definitions

* `Session.Visits`: the kinds that the phases of a session are about;
* `Pass.builtin`: the phase of the library that is about a kind.

## Main results

* `Pass.keepApart_builtin`: the phases of the library keep apart;
* `Session.exists_mapModel_of_visits`: sessions with phases about the same kinds give the same text;
* `Session.mapModel_of_same_ids`: so do sessions with the same extensions of the library.
-/

namespace Retrace

/-! ## Sessions with phases that keep apart -/

namespace Session

open Pass

variable {passOf : NodeKind → Pass} {kinds visits visits' : List NodeKind}
  {session session' : Session} {text : Text} {model : Model}

/-- The phases of a session are those about some kinds, in this order. -/
structure Visits (passOf : NodeKind → Pass) (visits : List NodeKind) (session : Session) :
    Prop where
  /-- Models are documents. -/
  format_eq : session.format = .markup
  /-- The phases are those about the kinds. -/
  passes_eq : session.passes.map Prod.snd = visits.map passOf

/-- A session with phases that keep apart maps every model that can be read. Mapping the result once
more with some of the phases changes nothing. -/
theorem Visits.exists_mapModel (h : Visits passOf visits session) (hpasses : KeepApart passOf kinds)
    (hvisits : visits ⊆ kinds) (hread : Model.read (splitPreamble text).2 = .ok model) :
    ∃ run body, Visited passOf visits model run ∧ run.model.write = .ok body ∧
      session.mapModel text = (.ok ⟨(splitPreamble text).1 ++ body, run.diagnostics⟩,
        { session with layers := run.layers }) ∧
      ∀ visits' ⊆ visits, ∀ session', Visits passOf visits' session' →
        ∃ again after,
          session'.mapModel ((splitPreamble text).1 ++ body) = (.ok again, after) ∧
          again.text = (splitPreamble text).1 ++ body ∧
          ∀ diagnostic, after.retrace? diagnostic = some diagnostic := by
  have hmodel := Model.wellFormed_of_read hread
  obtain ⟨run, hrun, hvisited⟩ :=
    (Visited.start passOf model).exists_passAll hpasses hmodel (List.nil_subset kinds)
      h.passes_eq hvisits
  rw [List.append_nil] at hvisited
  obtain ⟨body, received, hbody, hsplit, hreceived, hdetach⟩ :=
    exists_split_of_retexts hread (hvisited.chain.retexts hmodel)
  refine ⟨run, body, hvisited, hbody, mapModel_of_write h.format_eq hread hrun hbody, ?_⟩
  intro visits' hagain session' h'
  -- The model that is read again is the one that was written, but for its document.
  have hsettled : Settled passOf kinds visits model received [] := by
    refine ⟨(hvisited.shape hmodel).trans (.of_detach_eq hdetach), fun {node path} hat hkind => ?_,
      fun _ hmem => (List.not_mem_nil hmem).elim⟩
    rw [← hvisited.text?_eq hat hkind, ← Model.text?_detach, hdetach, Model.text?_detach]
  obtain ⟨run', hrun', hsame, hretrace⟩ : ∃ run',
      Run.passAll session'.passes { model := received } = (run', none) ∧ run'.model = received ∧
      ∀ diagnostic, retraceThrough run'.layers diagnostic = some diagnostic :=
    hsettled.exists_passAll hpasses hmodel (Model.wellFormed_of_read hreceived) hvisits
      h'.passes_eq hagain
  have hreceived' : Model.read (splitPreamble ((splitPreamble text).1 ++ body)).2 =
      .ok received := by
    rw [hsplit]
    exact hreceived
  have hwrite : run'.model.write = .ok body := by
    rw [hsame]
    exact Model.write_of_read hreceived
  have hmap := mapModel_of_write h'.format_eq hreceived' hrun' hwrite
  rw [hsplit] at hmap
  exact ⟨_, _, hmap, rfl, hretrace⟩

/-- Sessions with phases about the same kinds give the same text and move diagnostics back in the
same way, and mapping the result once more changes nothing. -/
theorem exists_mapModel_of_visits (hpasses : KeepApart passOf kinds) (hvisits : visits ⊆ kinds)
    (hsame : ∀ kind, kind ∈ visits' ↔ kind ∈ visits) (h : Visits passOf visits session)
    (h' : Visits passOf visits' session') (text : Text) :
    ∃ mapped mapped' after after', session.mapModel text = (.ok mapped, after) ∧
      session'.mapModel text = (.ok mapped', after') ∧ mapped'.text = mapped.text ∧
      (∀ diagnostic, after'.retrace? diagnostic = after.retrace? diagnostic) ∧
      ∀ later ⊆ visits, ∀ session'', Visits passOf later session'' →
        ∃ again last, session''.mapModel mapped.text = (.ok again, last) ∧
          again.text = mapped.text ∧ ∀ diagnostic, last.retrace? diagnostic = some diagnostic := by
  cases hread : Model.read (splitPreamble text).2 with
  | error error =>
    refine ⟨_, _, _, _, mapModel_of_error h.format_eq hread, mapModel_of_error h'.format_eq hread,
      rfl, fun _ => rfl, fun later _ session'' h'' => ?_⟩
    exact ⟨_, _, mapModel_of_error h''.format_eq hread, rfl, fun _ => rfl⟩
  | ok model =>
    have hmodel := Model.wellFormed_of_read hread
    obtain ⟨run, body, hvisited, hbody, hmap, hagain⟩ := h.exists_mapModel hpasses hvisits hread
    obtain ⟨run', body', hvisited', hbody', hmap', -⟩ :=
      h'.exists_mapModel hpasses (fun kind hkind => hvisits ((hsame kind).1 hkind)) hread
    rw [hvisited'.model_eq hmodel hvisited fun kind => (hsame kind).symm, hbody] at hbody'
    obtain rfl := Except.ok.inj hbody'
    exact ⟨_, _, _, _, hmap, hmap', rfl, fun diagnostic =>
      hvisited'.retraceThrough_eq hvisited (fun kind => (hsame kind).symm) diagnostic, hagain⟩

end Session

/-! ## The extensions of the library -/

/-- The phase of the library that is about a kind of element. -/
def Pass.builtin : NodeKind → Pass
  | .formula => TextualQuantifiers.phase.toPass
  | _ => ArrayInit.phase.toPass

/-- The phases of the library keep apart. -/
theorem Pass.keepApart_builtin : Pass.KeepApart Pass.builtin [.declaration, .formula] where
  about := by
    simp only [List.mem_cons, List.not_mem_nil, or_false, forall_eq_or_imp, forall_eq]
    exact ⟨ArrayInit.about_phase, TextualQuantifiers.about_phase⟩
  settles := by
    simp only [List.mem_cons, List.not_mem_nil, or_false, forall_eq_or_imp, forall_eq]
    exact ⟨ArrayInit.settles_phase, TextualQuantifiers.settles_phase⟩
  reliable := by
    simp only [List.mem_cons, List.not_mem_nil, or_false, forall_eq_or_imp, forall_eq]
    exact ⟨ArrayInit.reliable_phase, TextualQuantifiers.reliable_phase⟩
  apart := by
    simp only [List.mem_cons, List.not_mem_nil, or_false, forall_eq_or_imp, forall_eq]
    exact ⟨by decide, by decide⟩

namespace Session

/-- The kinds that the phases of an extension of the library are about. -/
def kindsOf (id : String) : List NodeKind :=
  if id = ArrayInit.id then [.declaration]
  else if id = TextualQuantifiers.id then [.formula]
  else []

theorem kindsOf_subset (id : String) : kindsOf id ⊆ [.declaration, .formula] := by
  unfold kindsOf
  split
  · decide
  · split <;> decide

/-- The phases of an extension of the library are those about its kinds. -/
theorem passes_eq_of_mem_standard {entry : String × Extension}
    (h : entry ∈ Registry.standard.entries) :
    entry.2.passes = (kindsOf entry.1).map Pass.builtin := by
  rcases Registry.mem_registerAll h with h | ⟨extension, hmem, rfl⟩
  · cases h
  · simp only [Registry.builtins, List.mem_cons, List.not_mem_nil, or_false] at hmem
    rcases hmem with rfl | rfl | rfl <;> rfl

/-- The extensions that are found stand under the names that were asked for. -/
theorem map_fst_of_mapM_find {registry : Registry} {ids : List String}
    {extensions : List (String × Extension)}
    (h : ids.mapM (fun id => (registry.find id).map fun extension => (id, extension)) =
      .ok extensions) : extensions.map Prod.fst = ids := by
  induction ids generalizing extensions with
  | nil =>
    obtain rfl := Except.ok.inj h
    rfl
  | cons id later ih =>
    rw [List.mapM_cons] at h
    obtain ⟨entry, hentry, h⟩ := Except.bind_eq_ok.1 h
    obtain ⟨others, hothers, h⟩ := Except.bind_eq_ok.1 h
    obtain ⟨extension, -, rfl⟩ := Except.map_eq_ok.1 hentry
    obtain rfl := Except.ok.inj h
    exact congrArg (id :: ·) (ih hothers)

/-- The extensions of a session are run under the names that were asked for. -/
theorem ids_of_ofIds {registry : Registry} {ids : List String} {session : Session}
    (h : ofIds registry ids = .ok session) : session.ids = ids := by
  unfold ofIds at h
  split at h
  · cases h
  · rename_i extensions hextensions
    obtain rfl := Except.ok.inj h
    exact map_fst_of_mapM_find hextensions

/-- A session with extensions of the library runs the phases about their kinds. -/
theorem exists_visits_of_ids {ids : List String} (h : ∀ id ∈ ids, id ∈ Registry.standard.ids) :
    ∃ session, ofIds Registry.standard ids = .ok session ∧
      ∀ layers revisions, Visits Pass.builtin (ids.flatMap kindsOf)
        { session with layers, revisions } := by
  obtain ⟨session, hsession, hformat, hentries⟩ := exists_ofIds h
  refine ⟨session, hsession, fun layers revisions => ⟨hformat, ?_⟩⟩
  have hids : session.extensions.map Prod.fst = ids := ids_of_ofIds hsession
  show session.passes.map Prod.snd = _
  rw [← hids, passes, List.map_flatMap, List.flatMap_map, List.map_flatMap]
  refine List.flatMap_congr fun entry hentry => ?_
  rw [← passes_eq_of_mem_standard (hentries entry hentry), List.map_map]
  exact List.map_id _

/-- Two lists with the same extensions of the library, in any orders and with any repetitions, give
the same text for every model and move every diagnostic about it back in the same way, whatever has
been mapped before. If the result is mapped once more with some of these extensions, nothing is
changed. -/
theorem mapModel_of_same_ids {ids ids' : List String} (h : ∀ id ∈ ids, id ∈ Registry.standard.ids)
    (hsame : ∀ id, id ∈ ids' ↔ id ∈ ids) :
    ∃ session session', ofIds Registry.standard ids = .ok session ∧
      ofIds Registry.standard ids' = .ok session' ∧
      ∀ (layers layers' : List Layer) (revisions revisions' : List Revision) (text : Text),
        ∃ mapped mapped' after after',
          mapModel { session with layers, revisions } text = (.ok mapped, after) ∧
          mapModel { session' with layers := layers', revisions := revisions' } text =
            (.ok mapped', after') ∧
          mapped'.text = mapped.text ∧
          (∀ diagnostic, after'.retrace? diagnostic = after.retrace? diagnostic) ∧
          ∀ later ⊆ ids, ∃ session'', ofIds Registry.standard later = .ok session'' ∧
            ∀ (layers : List Layer) (revisions : List Revision), ∃ again last,
              mapModel { session'' with layers, revisions } mapped.text = (.ok again, last) ∧
              again.text = mapped.text ∧
              ∀ diagnostic, last.retrace? diagnostic = some diagnostic := by
  obtain ⟨session, hsession, hvisits⟩ := exists_visits_of_ids h
  obtain ⟨session', hsession', hvisits'⟩ :=
    exists_visits_of_ids fun id hmem => h id ((hsame id).1 hmem)
  have hkinds : ids.flatMap kindsOf ⊆ [.declaration, .formula] := by
    intro kind hkind
    obtain ⟨id, -, hkind⟩ := List.mem_flatMap.1 hkind
    exact kindsOf_subset id hkind
  have hsameKinds (kind : NodeKind) : kind ∈ ids'.flatMap kindsOf ↔ kind ∈ ids.flatMap kindsOf := by
    simp only [List.mem_flatMap, hsame]
  refine ⟨session, session', hsession, hsession', ?_⟩
  intro layers layers' revisions revisions' text
  obtain ⟨mapped, mapped', after, after', hmap, hmap', htext, hretrace, hagain⟩ :=
    exists_mapModel_of_visits Pass.keepApart_builtin hkinds hsameKinds (hvisits layers revisions)
      (hvisits' layers' revisions') text
  refine ⟨mapped, mapped', after, after', hmap, hmap', htext, hretrace, fun later hlater => ?_⟩
  obtain ⟨session'', hsession'', hvisits''⟩ :=
    exists_visits_of_ids fun id hmem => h id (hlater hmem)
  refine ⟨session'', hsession'', fun layers'' revisions'' => hagain _ ?_ _ (hvisits'' _ _)⟩
  intro kind hkind
  obtain ⟨id, hid, hkind⟩ := List.mem_flatMap.1 hkind
  exact List.mem_flatMap.2 ⟨id, hlater hid, hkind⟩

/-- The extensions of `repeatedIds`, each once and in another order. -/
def reorderedIds : List String :=
  ["hidden-processes", "textual-quantifiers", "array-init"]

/-- The model `initialised` with both values. -/
def expanded : Text := "<nta><declaration>int a[2]={0, 0};</declaration></nta>".toList

/-- Values are repeated in the same way if the extension is run twice or behind another one, and no
more of them come of mapping the result. -/
theorem mapModel_of_same_ids_reordered :
    (∀ id ∈ repeatedIds, id ∈ Registry.standard.ids) ∧
      (∀ id, id ∈ reorderedIds ↔ id ∈ repeatedIds) ∧
      ∃ session session' mapped' again after after' last,
        ofIds Registry.standard repeatedIds = .ok session ∧
        ofIds Registry.standard reorderedIds = .ok session' ∧
        session.mapModel initialised = (.ok ⟨expanded, []⟩, after) ∧
        session'.mapModel initialised = (.ok mapped', after') ∧
        mapped'.text = expanded ∧
        (∀ diagnostic, after'.retrace? diagnostic = after.retrace? diagnostic) ∧
        session.mapModel expanded = (.ok again, last) ∧ again.text = expanded := by
  have hids : ∀ id ∈ repeatedIds, id ∈ Registry.standard.ids := by decide +kernel
  have hsame (id : String) : id ∈ reorderedIds ↔ id ∈ repeatedIds := by
    simp only [reorderedIds, repeatedIds, List.mem_cons, List.not_mem_nil, or_false]
    tauto
  have hmodel : (ofIds Registry.standard repeatedIds).toOption.map
      (fun session => (session.mapModel initialised).1.toOption) =
        some (some ⟨expanded, []⟩) := by
    decide +kernel
  obtain ⟨session, session', hsession, hsession', hmaps⟩ := mapModel_of_same_ids hids hsame
  obtain ⟨mapped, mapped', after, after', hmap, hmap', htext, hretrace, hagain⟩ :=
    hmaps session.layers session'.layers session.revisions session'.revisions initialised
  obtain ⟨session'', hsession'', hagain⟩ := hagain repeatedIds (List.Subset.refl _)
  obtain rfl : session'' = session := Except.ok.inj (hsession''.symm.trans hsession)
  obtain ⟨again, last, hlast, hunchanged, -⟩ := hagain session''.layers session''.revisions
  change session''.mapModel initialised = (.ok mapped, after) at hmap
  -- What is mapped is known to exist, so it is what evaluation gives.
  rw [hsession, Except.toOption, Option.map_some, hmap] at hmodel
  obtain rfl : mapped = _ := Option.some.inj (Option.some.inj hmodel)
  exact ⟨hids, hsame, session'', session', mapped', again, after, after', last, hsession, hsession',
    hmap, hmap', htext, hretrace, hlast, hunchanged⟩

end Session

end Retrace
