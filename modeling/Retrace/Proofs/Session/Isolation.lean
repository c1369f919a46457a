import Retrace.Proofs.Session.Stages

/-!
# Sessions that remember nothing else

A session keeps the layers of its latest model and the revisions of its latest query. Nothing else
goes from one request to the next: whatever was asked before, a model is mapped as by a new session
with the same extensions, and diagnostics about it take the same way back until the next model is
mapped. Queries and lists of processes that come in between make no difference. The same is true of
queries, whatever models come in between.

Each request replaces what it is about and leaves the rest alone (`mapModel_eq_fresh`,
`mapQuery_eq_fresh`, `layers_answer`, `revisions_answer`). The rest follows by going through the
requests one by one.

## Main definitions

* `Session.Request`, `Session.answerAll`: requests, and a session that answers them in a row;
* `Session.fresh`: a new session with the same extensions.

## Main results

* `Session.mapModel_and_mapQuery_of_fresh`: a session answers as a new one does.
-/

namespace Retrace.Session

/-- What is asked of a session. -/
inductive Request where
  /-- Run all phases over a model. -/
  | mapModel (text : Text)
  /-- Revise a query. -/
  | mapQuery (query : Text)
  /-- Change a list of processes. -/
  | mapProcesses (processes : List ListedProcess)
  /-- Move a diagnostic about the latest mapped model back. -/
  | retrace (diagnostic : Diagnostic)
  /-- Move a diagnostic about the latest mapped query back. -/
  | retraceQuery (diagnostic : Diagnostic)

namespace Request

/-- A model is to be mapped. -/
def isModel : Request → Bool
  | mapModel _ => true
  | _ => false

/-- A query is to be mapped. -/
def isQuery : Request → Bool
  | mapQuery _ => true
  | _ => false

end Request

/-- What a session answers. -/
inductive Answer where
  /-- A mapped model or query, or why there is none. -/
  | mapped (result : Except Fault Mapped)
  /-- A list of processes. -/
  | processes (processes : List ListedProcess)
  /-- A diagnostic about what was sent, unless it was lost. -/
  | traced (diagnostic? : Option Diagnostic)

/-- Answer a request. -/
def answer (session : Session) : Request → Answer × Session
  | .mapModel text => ((session.mapModel text).map .mapped id)
  | .mapQuery query => ((session.mapQuery query).map .mapped id)
  | .mapProcesses processes => (.processes (session.mapProcesses processes), session)
  | .retrace diagnostic => (.traced (session.retrace? diagnostic), session)
  | .retraceQuery diagnostic => (.traced (session.retraceQuery? diagnostic), session)

/-- Answer requests one after the other. -/
def answerAll (session : Session) : List Request → List Answer × Session
  | [] => ([], session)
  | request :: later =>
    let (answer, next) := session.answer request
    let (answers, last) := next.answerAll later
    (answer :: answers, last)

/-- A new session with the same extensions. -/
def fresh (session : Session) : Session :=
  { extensions := session.extensions, format := session.format }

/-! ## What a request reads and changes -/

section Answers

variable (session : Session)

/-- A session maps a model as a new one does and leaves what it keeps of a query alone. -/
theorem mapModel_eq_fresh (text : Text) :
    session.mapModel text = ((session.fresh.mapModel text).1,
      { (session.fresh.mapModel text).2 with revisions := session.revisions }) := by
  have hpasses : session.fresh.passes = session.passes := rfl
  have hformat : session.fresh.format = session.format := rfl
  unfold mapModel
  dsimp only
  rw [hpasses, hformat]
  cases session.format.read (splitPreamble text).2 with
  | error fault =>
    dsimp only
    cases fault.isInput <;> rfl
  | ok model =>
    dsimp only
    rcases Run.passAll session.passes { model } with ⟨run, fault?⟩
    cases fault? with
    | some fault => rfl
    | none =>
      dsimp only
      cases session.format.write run.model <;> rfl

/-- A session maps a query as a new one does and leaves what it keeps of a model alone. -/
theorem mapQuery_eq_fresh (query : Text) :
    session.mapQuery query = ((session.fresh.mapQuery query).1,
      { (session.fresh.mapQuery query).2 with layers := session.layers }) :=
  rfl

/-- A new session stays one but for what it keeps of its latest model. -/
theorem fresh_mapModel (text : Text) : (session.mapModel text).2.fresh = session.fresh := by
  unfold mapModel
  dsimp only
  split
  · split <;> rfl
  · split
    · rfl
    · split <;> rfl

/-- No request changes the extensions. -/
theorem fresh_answer (request : Request) : (session.answer request).2.fresh = session.fresh := by
  cases request with
  | mapModel text => exact session.fresh_mapModel text
  | mapQuery query => rfl
  | mapProcesses processes => rfl
  | retrace diagnostic => rfl
  | retraceQuery diagnostic => rfl

/-- Only another model replaces what is kept of a model. -/
theorem layers_answer {request : Request} (h : request.isModel = false) :
    (session.answer request).2.layers = session.layers := by
  cases request with
  | mapModel text => cases h
  | mapQuery query => rfl
  | mapProcesses processes => rfl
  | retrace diagnostic => rfl
  | retraceQuery diagnostic => rfl

/-- Only another query replaces what is kept of a query. -/
theorem revisions_answer {request : Request} (h : request.isQuery = false) :
    (session.answer request).2.revisions = session.revisions := by
  cases request with
  | mapModel text =>
    show (session.mapModel text).2.revisions = _
    rw [mapModel_eq_fresh]
  | mapQuery query => cases h
  | mapProcesses processes => rfl
  | retrace diagnostic => rfl
  | retraceQuery diagnostic => rfl

/-! ## Requests in a row -/

theorem fresh_answerAll (requests : List Request) :
    (session.answerAll requests).2.fresh = session.fresh := by
  induction requests generalizing session with
  | nil => rfl
  | cons request later ih => exact (ih _).trans (session.fresh_answer request)

theorem layers_answerAll {requests : List Request}
    (h : ∀ request ∈ requests, request.isModel = false) :
    (session.answerAll requests).2.layers = session.layers := by
  induction requests generalizing session with
  | nil => rfl
  | cons request later ih =>
    obtain ⟨hfirst, hlater⟩ := List.forall_mem_cons.1 h
    exact (ih _ hlater).trans (session.layers_answer hfirst)

theorem revisions_answerAll {requests : List Request}
    (h : ∀ request ∈ requests, request.isQuery = false) :
    (session.answerAll requests).2.revisions = session.revisions := by
  induction requests generalizing session with
  | nil => rfl
  | cons request later ih =>
    obtain ⟨hfirst, hlater⟩ := List.forall_mem_cons.1 h
    exact (ih _ hlater).trans (session.revisions_answer hfirst)

end Answers

/-- Whatever a session was asked before, failures and models that cannot be read included, it maps
a model as a new session does that has mapped nothing else, and whatever it is asked afterwards but
to map another model, it moves diagnostics about the model back as this new session does. The same
is true of queries. -/
theorem mapModel_and_mapQuery_of_fresh (session : Session) (history : List Request) :
    (∀ (text : Text) (later : List Request), (∀ request ∈ later, request.isModel = false) →
      ((session.answerAll history).2.mapModel text).1 = (session.fresh.mapModel text).1 ∧
      ∀ diagnostic : Diagnostic,
        (((session.answerAll history).2.mapModel text).2.answerAll later).2.retrace? diagnostic =
          (session.fresh.mapModel text).2.retrace? diagnostic) ∧
    ∀ (query : Text) (later : List Request), (∀ request ∈ later, request.isQuery = false) →
      ((session.answerAll history).2.mapQuery query).1 = (session.fresh.mapQuery query).1 ∧
      ∀ diagnostic : Diagnostic,
        (((session.answerAll history).2.mapQuery query).2.answerAll later).2.retraceQuery?
            diagnostic =
          (session.fresh.mapQuery query).2.retraceQuery? diagnostic := by
  have hfresh : (session.answerAll history).2.fresh = session.fresh :=
    session.fresh_answerAll history
  refine ⟨fun text later hlater => ?_, fun query later hlater => ?_⟩
  · -- The history is behind a session that is a new one but for what it keeps.
    have hmap := (session.answerAll history).2.mapModel_eq_fresh text
    rw [hfresh] at hmap
    refine ⟨by rw [hmap], fun diagnostic => ?_⟩
    rw [retrace?, layers_answerAll _ hlater, hmap]
    rfl
  · have hmap := (session.answerAll history).2.mapQuery_eq_fresh query
    rw [hfresh] at hmap
    refine ⟨by rw [hmap], fun diagnostic => ?_⟩
    rw [retraceQuery?, revisions_answerAll _ hlater, hmap]
    rfl

/-- A phase that fails if the model has a declaration. -/
def stopping : Pass :=
  Phase.toPass <| Phase.onEnter ⟨"stop", (), [], []⟩ .declaration [] fun _ =>
    throw (.stated .grammar "no")

/-- Put a mark in front of a query. -/
def negating (query : Text) : Except Fault (Option RevisedQuery) :=
  match (Revision.ofText query).replace ⟨0, 0⟩ ['!'] .discarded with
  | .ok revision => .ok (some { revision })
  | .error error => .error (.edit error)

/-- A session that puts a line in front of the system and a mark in front of a query, and then fails
if there is a declaration or if the query was empty. -/
def stoppingBehind : Session where
  extensions := [
    ("prepend", { id := "prepend", passes := [prepending], reviseQuery := negating }),
    ("stop", { id := "stop", passes := [stopping], reviseQuery := fun query =>
      if query = ['!'] then .error (.stated .grammar "no") else .ok none })]

/-- A model with a declaration. -/
def declaredText : Text :=
  "<nta><declaration>b</declaration><system>a</system></nta>".toList

/-- Requests that leave a layer and a revision behind: a model that cannot be read, one that cannot
be mapped, and a query that cannot be mapped either. -/
def failedRequests : List Request :=
  [.mapModel "<nta".toList, .mapModel declaredText, .mapQuery []]

/-- Behind requests that failed, and with a query and a list of processes in between, the only
character of the system is traced to the first column, and so is that of a query. -/
theorem mapModel_and_mapQuery_of_fresh_stoppingBehind :
    (stoppingBehind.answerAll failedRequests).2.layers.length = 1 ∧
    (stoppingBehind.answerAll failedRequests).2.revisions.length = 1 ∧
    ((stoppingBehind.answerAll failedRequests).2.mapModel plainText).1.toOption =
      some ⟨"<nta><system>//\na</system></nta>".toList, []⟩ ∧
    (((stoppingBehind.answerAll failedRequests).2.mapModel plainText).2.answerAll
        [.mapQuery ['x'], .mapProcesses []]).2.retrace?
          ⟨"/nta/system", ⟨⟨2, 1⟩, ⟨2, 2⟩⟩, "", "", .recoverable, none⟩ =
      some ⟨"/nta/system", ⟨⟨1, 1⟩, ⟨1, 2⟩⟩, "", "", .recoverable, none⟩ ∧
    (((stoppingBehind.answerAll failedRequests).2.mapQuery ['x']).2.answerAll
        [.mapModel plainText]).2.retraceQuery?
          ⟨"/query", ⟨⟨1, 2⟩, ⟨1, 3⟩⟩, "", "", .recoverable, none⟩ =
      some ⟨"/query", ⟨⟨1, 1⟩, ⟨1, 2⟩⟩, "", "", .recoverable, none⟩ := by
  obtain ⟨hmodel, hquery⟩ := mapModel_and_mapQuery_of_fresh stoppingBehind failedRequests
  obtain ⟨hmapped, htraced⟩ := hmodel plainText [.mapQuery ['x'], .mapProcesses []]
    (by simp [Request.isModel])
  obtain ⟨-, htraced'⟩ := hquery ['x'] [.mapModel plainText] (by simp [Request.isQuery])
  have hlayers : (stoppingBehind.fresh.mapModel plainText).2.layers =
      [⟨[]⟩, ⟨[("/nta/system", ⟨1, ⟨['a'], ['/', '/', '\n', 'a'],
        [⟨⟨0, 0⟩, ⟨0, 3⟩, ['/', '/', '\n'], .discarded⟩]⟩⟩)]⟩] := by
    decide +kernel
  have hrevisions : (stoppingBehind.fresh.mapQuery ['x']).2.revisions =
      [⟨['x'], ['!', 'x'], [⟨⟨0, 0⟩, ⟨0, 1⟩, ['!'], .discarded⟩]⟩] := by
    decide +kernel
  refine ⟨by decide +kernel, by decide +kernel, ?_, ?_, ?_⟩
  · rw [hmapped]
    decide +kernel
  · rw [htraced, retrace?, hlayers]
    decide +kernel
  · rw [htraced', retraceQuery?, hrevisions]
    decide +kernel

end Retrace.Session
