import Retrace.Proofs.Extension.ArrayInit
import Retrace.Proofs.Extension.TextualQuantifiers
import Retrace.Proofs.Registry
import Retrace.Proofs.Session.Composition

/-!
# Requests that cannot fail

A request fails if a phase fails, if a layer cannot be brought into the model or if the model cannot
be written. The last two never happen, because a layer has entries for elements with a text only and
every text of a model that was read has its place in the document. The extensions of the library do
not fail either, so with them every request is answered, whatever is sent.

## Main definitions

* `Extension.Reliable`: an extension whose handlers and revisions of queries do not fail.

## Main results

* `Session.exists_mapModel`, `Session.exists_mapQuery`: with such extensions requests succeed;
* `Session.mapModel_and_mapQuery_of_ids`: the extensions of the library are such extensions.
-/

namespace Retrace

/-! ## The extensions of the library -/

/-- No handler of an extension fails, and every query is revised or left alone. -/
structure Extension.Reliable (extension : Extension) : Prop where
  /-- No handler of a phase fails. -/
  passes : ∀ pass ∈ extension.passes, pass.phase.Reliable
  /-- Queries are revised or left alone. -/
  reviseQuery : ∀ query, ∃ revised?, extension.reviseQuery query = .ok revised?

theorem ArrayInit.reliable_extension : ArrayInit.extension.Reliable where
  passes pass hmem := by
    obtain rfl := List.mem_singleton.1 hmem
    exact reliable_phase
  reviseQuery _ := ⟨none, rfl⟩

theorem TextualQuantifiers.reliable_extension : TextualQuantifiers.extension.Reliable where
  passes pass hmem := by
    obtain rfl := List.mem_singleton.1 hmem
    exact reliable_phase
  reviseQuery := exists_reviseQuery

theorem HiddenProcesses.reliable_extension : HiddenProcesses.extension.Reliable where
  passes _ hmem := (List.not_mem_nil hmem).elim
  reviseQuery _ := ⟨none, rfl⟩

/-- The extensions of the library do not fail. -/
theorem Registry.reliable_of_mem_standard {entry : String × Extension}
    (h : entry ∈ standard.entries) : entry.2.Reliable := by
  rcases mem_registerAll h with h | ⟨extension, hmem, rfl⟩
  · cases h
  · simp only [builtins, List.mem_cons, List.not_mem_nil, or_false] at hmem
    rcases hmem with rfl | rfl | rfl
    · exact ArrayInit.reliable_extension
    · exact TextualQuantifiers.reliable_extension
    · exact HiddenProcesses.reliable_extension

namespace Session

/-! ## Models -/

/-- A phase whose handlers do not fail is run, and its edits are brought into the model. -/
theorem exists_pass {run : Run} (hmodel : run.model.WellFormed) (id : String) {pass : Pass}
    (hpass : pass.phase.Reliable) :
    ∃ next, run.pass id pass = .ok next ∧ next.model.WellFormed := by
  obtain ⟨outcome, houtcome⟩ := hpass.exists_run hmodel run.blocked
  have hdescribes := Phase.run_describes hmodel houtcome
  obtain ⟨after, hafter⟩ := hdescribes.exists_commit hmodel
  refine ⟨run.add ⟨id, pass.name, run.sequence⟩ after outcome, ?_,
    (hdescribes.committed hmodel hafter).wellFormed hmodel⟩
  have hrun : pass.run run.model run.blocked = .ok outcome := houtcome
  rw [Run.pass, hrun]
  dsimp only
  rw [hafter]

theorem exists_passAll {passes : List (String × Pass)}
    (hpasses : ∀ entry ∈ passes, entry.2.phase.Reliable) (run : Run)
    (hmodel : run.model.WellFormed) : ∃ result, Run.passAll passes run = (result, none) := by
  induction passes generalizing run with
  | nil => exact ⟨run, rfl⟩
  | cons first later ih =>
    obtain ⟨id, pass⟩ := first
    obtain ⟨hfirst, hlater⟩ := List.forall_mem_cons.1 hpasses
    obtain ⟨next, hnext, hwellFormed⟩ := exists_pass hmodel id hfirst
    obtain ⟨result, hresult⟩ := ih hlater next hwellFormed
    exact ⟨result, by rw [Run.passAll, hnext]; exact hresult⟩

/-- No layer has an entry for an element without a text. -/
theorem Chain.hasText {first last : Model} {layers : List Layer} (h : Chain first layers last)
    (hfirst : first.WellFormed) : ∀ layer ∈ layers, ∀ entry ∈ layer.fields,
      (first.kind entry.2.node).hasText = true := by
  induction h with
  | nil => exact fun layer hlayer => (List.not_mem_nil hlayer).elim
  | @cons layer layers middle last hchain hlayer hcommit ih =>
    refine List.forall_mem_cons.2 ⟨fun entry hentry => ?_, ih⟩
    obtain ⟨text, hnode, -⟩ := (hchain.retexts hfirst).node_eq entry.2.node
    have htext := hlayer.hasText (hchain.wellFormed hfirst) hentry
    -- Phases change texts only, so the element has been of the same kind before.
    rwa [Model.kind, hnode] at htext

/-- Documents that cannot be read are the only reason why a model cannot be read. -/
theorem isInput_of_read {text : Text} {fault : Fault}
    (h : Format.markup.read text = .error fault) : fault.isInput = true := by
  have hread : (Model.read text).mapError Fault.document = .error fault := h
  cases hmodel : Model.read text with
  | ok model =>
    rw [hmodel] at hread
    cases hread
  | error error =>
    rw [hmodel] at hread
    cases hread
    rfl

/-- A model that cannot be read for a fault of the input comes back unchanged. -/
theorem mapModel_of_isInput {session : Session} {text : Text} {fault : Fault}
    (hread : session.format.read (splitPreamble text).2 = .error fault)
    (hinput : fault.isInput = true) :
    session.mapModel text =
      (.ok ⟨text, [unreadable text (Text.size (splitPreamble text).1) fault]⟩,
        { session with layers := [] }) := by
  unfold mapModel
  dsimp only
  rw [hread]
  exact if_pos hinput

/-- With the format of model documents, every model that cannot be read comes back unchanged. -/
theorem mapModel_of_error {session : Session} (hformat : session.format = .markup) {text : Text}
    {error : DocumentError} (hread : Model.read (splitPreamble text).2 = .error error) :
    session.mapModel text =
      (.ok ⟨text, [unreadable text (Text.size (splitPreamble text).1) (.document error)]⟩,
        { session with layers := [] }) := by
  refine mapModel_of_isInput ?_ rfl
  rw [hformat]
  show (Model.read (splitPreamble text).2).mapError Fault.document = _
  rw [hread]
  rfl

/-- With phases whose handlers do not fail, every text is mapped. -/
theorem exists_mapModel (session : Session) (hformat : session.format = .markup)
    (hpasses : ∀ entry ∈ session.passes, entry.2.phase.Reliable) (text : Text) :
    ∃ mapped after, session.mapModel text = (.ok mapped, after) := by
  cases hread : Model.read (splitPreamble text).2 with
  | ok model =>
    obtain ⟨run, hrun⟩ := exists_passAll hpasses { model } (Model.wellFormed_of_read hread)
    obtain ⟨body, -, hmap, -⟩ := mapModel_of_passAll hformat hread hrun
    exact ⟨_, _, hmap⟩
  | error error => exact ⟨_, _, mapModel_of_error hformat hread⟩

/-! ## Queries -/

theorem exists_reviseAll {extensions : List Extension}
    (h : ∀ extension ∈ extensions, extension.Reliable) (mapped : Mapped)
    (revisions : List Revision) :
    ∃ result revisions', reviseAll extensions mapped revisions = (.ok result, revisions') := by
  induction extensions generalizing mapped revisions with
  | nil => exact ⟨mapped, revisions, rfl⟩
  | cons first later ih =>
    obtain ⟨hfirst, hlater⟩ := List.forall_mem_cons.1 h
    obtain ⟨revised?, hrevised⟩ := hfirst.reviseQuery mapped.text
    rw [reviseAll, hrevised]
    cases revised? with
    | none => exact ih hlater mapped revisions
    | some revised => exact ih hlater _ _

/-- With extensions that do not fail, every query is mapped. -/
theorem exists_mapQuery (session : Session)
    (h : ∀ entry ∈ session.extensions, entry.2.Reliable) (query : Text) :
    ∃ mapped after, session.mapQuery query = (.ok mapped, after) := by
  obtain ⟨mapped, revisions, hresult⟩ :=
    exists_reviseAll (List.forall_mem_map.2 h) ⟨query, []⟩ []
  exact ⟨mapped, { session with revisions }, by rw [mapQuery, hresult]⟩

/-! ## Sessions with known extensions -/

/-- All extensions with known names are found. -/
theorem exists_mapM_find {registry : Registry} {ids : List String}
    (h : ∀ id ∈ ids, id ∈ registry.ids) :
    ∃ extensions, ids.mapM (fun id => (registry.find id).map fun extension => (id, extension)) =
        .ok extensions ∧ ∀ entry ∈ extensions, entry ∈ registry.entries := by
  induction ids with
  | nil => exact ⟨[], rfl, nofun⟩
  | cons id later ih =>
    obtain ⟨hid, hlater⟩ := List.forall_mem_cons.1 h
    obtain ⟨extension, hfind, hmem⟩ := Registry.exists_find hid
    obtain ⟨extensions, hextensions, hentries⟩ := ih hlater
    refine ⟨(id, extension) :: extensions, ?_, List.forall_mem_cons.2 ⟨hmem, hentries⟩⟩
    rw [List.mapM_cons, hfind, hextensions]
    rfl

/-- A session with known extensions can be made. -/
theorem exists_ofIds {registry : Registry} {ids : List String}
    (h : ∀ id ∈ ids, id ∈ registry.ids) :
    ∃ session, ofIds registry ids = .ok session ∧ session.format = .markup ∧
      ∀ entry ∈ session.extensions, entry ∈ registry.entries := by
  obtain ⟨extensions, hmap, hentries⟩ := exists_mapM_find h
  exact ⟨{ extensions }, by rw [ofIds, hmap], rfl, hentries⟩

/-- With extensions of the library, in any order and any number of times, every model and every
query is mapped, whatever has been mapped before. Only the input is to blame if a model cannot be
read. The spans that the extensions look at and replace lie in the text, between characters and one
behind the other; layers have entries for elements with a text only; and the model that results from
all phases can be written. -/
theorem mapModel_and_mapQuery_of_ids {ids : List String}
    (h : ∀ id ∈ ids, id ∈ Registry.standard.ids) :
    ∃ session, ofIds Registry.standard ids = .ok session ∧
      ∀ (layers : List Layer) (revisions : List Revision) (text : Text),
        (∃ mapped after, mapModel { session with layers, revisions } text = (.ok mapped, after)) ∧
        (∃ mapped after, mapQuery { session with layers, revisions } text = (.ok mapped, after)) ∧
        (∀ fault, session.format.read text = .error fault → fault.isInput = true) ∧
        Span.Ascending text ((ArrayInit.declarationsIn text).map ArrayInit.Declaration.size) ∧
        Span.Ascending text ((ArrayInit.declarationsIn text).map ArrayInit.Declaration.value) ∧
        Span.Ascending text
          ((TextualQuantifiers.occurrencesIn text).map TextualQuantifiers.Occurrence.span) ∧
        ∀ model, session.format.read (splitPreamble text).2 = .ok model →
          ∃ run, Run.passAll session.passes { model } = (run, none) ∧
            (∀ layer ∈ run.layers, ∀ entry ∈ layer.fields,
              (model.kind entry.2.node).hasText = true) ∧
            ∃ body, session.format.write run.model = .ok body := by
  obtain ⟨session, hsession, hformat, hentries⟩ := exists_ofIds h
  have hreliable : ∀ entry ∈ session.extensions, entry.2.Reliable :=
    fun entry hentry => Registry.reliable_of_mem_standard (hentries entry hentry)
  have hpasses : ∀ entry ∈ session.passes, entry.2.phase.Reliable := by
    intro entry hentry
    obtain ⟨extension, hextension, hmem⟩ := List.mem_flatMap.1 hentry
    obtain ⟨pass, hpass, rfl⟩ := List.mem_map.1 hmem
    exact (hreliable extension hextension).passes pass hpass
  refine ⟨session, hsession, fun layers revisions text =>
    ⟨exists_mapModel { session with layers, revisions } hformat hpasses text,
      exists_mapQuery { session with layers, revisions } hreliable text, fun fault hfault => ?_,
      ArrayInit.ascending_sizes text, ArrayInit.ascending_values text,
      TextualQuantifiers.ascending_occurrencesIn text, fun model hread => ?_⟩⟩
  · rw [hformat] at hfault
    exact isInput_of_read hfault
  · rw [hformat] at hread ⊢
    have hmodel := Format.lawful_markup.wellFormed_of_read hread
    obtain ⟨run, hrun⟩ := exists_passAll hpasses { model } hmodel
    have hchain : Chain model run.layers run.model := Chain.nil.passAll hmodel hrun
    refine ⟨run, hrun, hchain.hasText hmodel, ?_⟩
    obtain ⟨body, -, hwrite, -⟩ :=
      exists_split_of_retexts (Except.mapError_eq_ok.1 hread) (hchain.retexts hmodel)
    exact ⟨body, Except.mapError_eq_ok.2 hwrite⟩

/-- All extensions of the library, one of them twice. -/
def repeatedIds : List String :=
  ["array-init", "textual-quantifiers", "array-init", "hidden-processes"]

/-- A model with an array that is initialised with a single value. -/
def initialised : Text := "<nta><declaration>int a[2]={0};</declaration></nta>".toList

/-- The value of an array is repeated once, also if the extension is run twice, and a keyword in a
query is replaced. -/
theorem mapModel_and_mapQuery_of_ids_repeated :
    (∀ id ∈ repeatedIds, id ∈ Registry.standard.ids) ∧
      ∃ session after after', ofIds Registry.standard repeatedIds = .ok session ∧
        session.mapModel initialised =
          (.ok ⟨"<nta><declaration>int a[2]={0, 0};</declaration></nta>".toList, []⟩, after) ∧
        session.mapQuery "ALWAYS x".toList = (.ok ⟨"A[] x".toList, []⟩, after') := by
  have hids : ∀ id ∈ repeatedIds, id ∈ Registry.standard.ids := by decide +kernel
  have hmodel : (ofIds Registry.standard repeatedIds).toOption.map
      (fun session => (session.mapModel initialised).1.toOption) =
        some (some ⟨"<nta><declaration>int a[2]={0, 0};</declaration></nta>".toList, []⟩) := by
    decide +kernel
  have hquery : (ofIds Registry.standard repeatedIds).toOption.map
      (fun session => (session.mapQuery "ALWAYS x".toList).1.toOption) =
        some (some ⟨"A[] x".toList, []⟩) := by
    decide +kernel
  obtain ⟨session, hsession, hmaps⟩ := mapModel_and_mapQuery_of_ids hids
  obtain ⟨⟨mapped, after, hmap⟩, -⟩ := hmaps session.layers session.revisions initialised
  obtain ⟨-, ⟨mapped', after', hmap'⟩, -⟩ :=
    hmaps session.layers session.revisions "ALWAYS x".toList
  change session.mapModel initialised = (.ok mapped, after) at hmap
  change session.mapQuery "ALWAYS x".toList = (.ok mapped', after') at hmap'
  -- What is mapped is known to exist, so it is what evaluation gives.
  rw [hsession, Except.toOption, Option.map_some, hmap] at hmodel
  rw [hsession, Except.toOption, Option.map_some, hmap'] at hquery
  obtain rfl : mapped = _ := Option.some.inj (Option.some.inj hmodel)
  obtain rfl : mapped' = _ := Option.some.inj (Option.some.inj hquery)
  exact ⟨hids, session, after, after', hsession, hmap, hmap'⟩

end Session

end Retrace
