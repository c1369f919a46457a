import Mathlib.Data.List.Induction
import Retrace.Proofs.Handler
import Retrace.Proofs.Revision.Growth

/-!
# Edits asked for one after the other

Whoever asks for edits of a text finds out about each of them whether it was refused, and may go on
either way. What was refused leaves no trace: the revision is told by the edits that were accepted
alone. Each of these replaces a piece of the current text that lies as far from the start as its
range does from the start of the text before all edits, give or take what earlier edits have added.

## Main definitions

* `EditRequest`, `EditRequest.accepted`: an edit that is asked for, and those of some that are
  accepted;
* `Editing.askAll`: ask for edits one after the other, whatever becomes of them;
* `Revision.Answers`: what such a run has come to.

## Main results

* `Revision.refusal?_eq_none_iff`: what an edit must be like to be accepted;
* `Revision.Reachable.turns`: the text after all edits is the one before them with every edit made;
* `Revision.Reachable.exists_splice`: which piece of the current text an accepted edit replaces;
* `Editing.carryOut_askAll`: what a run of requests leaves behind, and what becomes of the next one.
-/

namespace Retrace

/-- An edit that is asked for. -/
structure EditRequest where
  /-- What is to be replaced, in the text before all edits. -/
  range : Span
  /-- The text to be put there. -/
  inserted : Text
  /-- How positions inside the inserted text are traced back. -/
  inside : Inside
  deriving DecidableEq

namespace EditRequest

/-- The edit as a patch of the text before all edits. -/
def patch (request : EditRequest) : Patch :=
  ⟨request.range, request.inserted⟩

/-- The requests that were not refused. -/
def accepted (requests : List EditRequest) (replies : List (Option EditError)) :
    List EditRequest :=
  ((requests.zip replies).filter fun answered => answered.2.isNone).map Prod.fst

/-- The latest request is among the accepted ones if it was not refused. -/
theorem accepted_concat {requests : List EditRequest} {replies : List (Option EditError)}
    (h : replies.length = requests.length) (request : EditRequest) (reply : Option EditError) :
    accepted (requests ++ [request]) (replies ++ [reply]) =
      accepted requests replies ++ if reply.isNone then [request] else [] := by
  rw [accepted, List.zip_append h.symm, List.filter_append, List.map_append]
  cases reply <;> rfl

end EditRequest

/-- What was asked for when an edit was made. -/
def Edit.request (edit : Edit) : EditRequest :=
  ⟨edit.before, edit.inserted, edit.inside⟩

namespace Revision

variable {text : Text} {revision : Revision} {request : EditRequest}

/-- An edit is accepted exactly if its range lies in the text before all edits, is not reversed,
cuts no character in two, and does not begin ahead of the end of the latest edit. -/
theorem refusal?_eq_none_iff {range : Span} :
    revision.refusal? range = none ↔
      range.Within revision.base 0 (Text.size revision.base) ∧
        ∀ previous ∈ revision.edits.getLast?, previous.before.stop ≤ range.start := by
  constructor
  · intro h
    obtain ⟨hle, hstart, hstop, hlast⟩ := refusal?_eq_none h
    exact ⟨⟨Nat.zero_le _, hle, hstop.le_size, hstart, hstop⟩, hlast⟩
  · rintro ⟨hwithin, hlast⟩
    exact refusal?_eq_none_of_within { hwithin with start_le := Nat.le_refl _ } hlast

/-- The edits of some strands turn the strands as they were into the strands as they are. -/
theorem turns_edits (before after : Nat) (strands : List Strand) (tail : Text) :
    Patch.Turns ((Strand.edits before after strands).map fun edit => edit.request.patch) before
      (Strand.bases strands ++ tail) (Strand.currents strands ++ tail) := by
  induction strands generalizing before after with
  | nil => exact .keep tail
  | cons strand later ih =>
    rw [Strand.bases_cons, Strand.currents_cons, List.append_assoc, List.append_assoc,
      List.append_assoc, List.append_assoc]
    exact .replace strand.kept strand.removed strand.inserted rfl rfl (ih ..)

/-- The text after all edits is the one before them with every edit made. -/
theorem Reachable.turns (h : Reachable text revision) :
    Patch.Turns ((revision.edits.map Edit.request).map EditRequest.patch) 0 text
      revision.current := by
  obtain ⟨weave, rfl, rfl⟩ := h.exists_weave
  rw [List.map_map]
  exact turns_edits 0 0 weave.strands weave.tail

/-- The piece of the current text that an accepted edit replaces: it begins as far behind the start
of the range as the text has grown, lies in the text and cuts no character in two. -/
theorem Reachable.exists_splice (h : Reachable text revision)
    (haccepted : revision.refusal? request.range = none) :
    ∃ start : Nat, (start : Int) = request.range.start + growth revision.edits ∧
      Span.Within revision.current 0 (Text.size revision.current)
        ⟨start, start + request.range.length⟩ ∧
      revision.accept request.range request.inserted request.inside =
        { base := text
          current := revision.current.upTo start ++
            (request.inserted ++ revision.current.since (start + request.range.length))
          edits := revision.edits ++ [⟨request.range, ⟨start, start + Text.size request.inserted⟩,
            request.inserted, request.inside⟩] } := by
  have hgrowth := h.growth_eq
  obtain ⟨⟨strands, tail⟩, rfl, rfl⟩ := h.exists_weave
  obtain ⟨kept, removed, rest, rfl, hrange⟩ := exists_cut haccepted
  -- The piece begins behind the strands as they are now and the text that is kept behind them.
  have hstart : (Text.size (Strand.currents strands ++ kept) : Int) = request.range.start +
      growth (Weave.mk strands (kept ++ (removed ++ rest))).revision.edits := by
    rw [hgrowth, hrange]
    simp only [Weave.revision, Text.size_append]
    omega
  have hlength : request.range.length = Text.size removed := by
    rw [hrange, Span.length]
    exact Nat.add_sub_cancel_left ..
  have hcurrent : (Weave.mk strands (kept ++ (removed ++ rest))).revision.current =
      (Strand.currents strands ++ kept) ++ (removed ++ rest) := (List.append_assoc ..).symm
  refine ⟨Text.size (Strand.currents strands ++ kept), hstart, ?_, ?_⟩
  · rw [hlength]
    exact Text.StandsAt.within ⟨Strand.currents strands ++ kept, rest, hcurrent, rfl⟩
  · have hbegin : Text.size (Weave.mk strands (kept ++ (removed ++ rest))).revision.current +
        request.range.start -
        Text.size (Weave.mk strands (kept ++ (removed ++ rest))).revision.base =
          Text.size (Strand.currents strands ++ kept) := by
      omega
    rw [accept, hbegin]

/-- What edits that were asked for have come to: which of them were refused, and the revision that
the others have made. -/
structure Answers (text : Text) (requests : List EditRequest) (replies : List (Option EditError))
    (revision : Revision) : Prop where
  /-- The revision was reached by accepted edits. -/
  reachable : Reachable text revision
  /-- Every request was answered. -/
  length_eq : replies.length = requests.length
  /-- The edits of the revision are the requests that were accepted. -/
  edits_eq : revision.edits.map Edit.request = EditRequest.accepted requests replies

namespace Answers

variable {requests : List EditRequest} {replies : List (Option EditError)}

/-- Without requests the text is as it was. -/
theorem ofText (text : Text) : Answers text [] [] (.ofText text) :=
  ⟨.ofText, rfl, rfl⟩

/-- An edit that is accepted is made. -/
theorem accept (h : Answers text requests replies revision)
    (haccepted : revision.refusal? request.range = none) :
    Answers text (requests ++ [request]) (replies ++ [none])
      (revision.accept request.range request.inserted request.inside) := by
  refine ⟨h.reachable.replace (by rw [replace, haccepted]), ?_, ?_⟩
  · rw [List.length_append, List.length_append, h.length_eq]
    rfl
  · rw [EditRequest.accepted_concat h.length_eq, ← h.edits_eq, Revision.accept, List.map_append]
    rfl

/-- An edit that is refused changes nothing. -/
theorem refuse (h : Answers text requests replies revision) (request : EditRequest)
    (error : EditError) :
    Answers text (requests ++ [request]) (replies ++ [some error]) revision := by
  refine ⟨h.reachable, ?_, ?_⟩
  · rw [List.length_append, List.length_append, h.length_eq]
    rfl
  · rw [EditRequest.accepted_concat h.length_eq, ← h.edits_eq]
    exact (List.append_nil _).symm

/-- An edit is accepted exactly if its range lies in the text before all edits, cuts no character in
two, and does not begin ahead of the end of the last range that was accepted. -/
theorem refusal?_eq_none_iff (h : Answers text requests replies revision) {range : Span} :
    revision.refusal? range = none ↔
      range.Within text 0 (Text.size text) ∧
        ∀ last ∈ (EditRequest.accepted requests replies).getLast?,
          last.range.stop ≤ range.start := by
  rw [Revision.refusal?_eq_none_iff, h.reachable.base_eq, ← h.edits_eq, List.getLast?_map]
  simp only [Option.mem_def, Option.map_eq_some_iff, forall_exists_index, and_imp,
    forall_apply_eq_imp_iff₂, Edit.request]

end Answers

end Revision

namespace Editing

open EditRequest Revision

variable {text : Text} {textless : EditError} {requests : List EditRequest}
  {replies : List (Option EditError)} {revision : Revision}

/-- Ask for edits one after the other, whatever becomes of them. -/
def askAll : List EditRequest → Editing (List (Option EditError))
  | [] => pure []
  | request :: later => do
    let reply ← ask request.range request.inserted request.inside
    let replies ← askAll later
    return reply :: replies

/-- Asked for last, an edit is asked for in the revision that the requests ahead of it have made. -/
theorem carryOut_askAll_concat {text? : Option Text} {revision? between? revised? : Option Revision}
    {request : EditRequest} {reply : Option EditError}
    (hrun : (askAll requests).carryOut text? textless revision? = (replies, between?))
    (hask : (ask request.range request.inserted request.inside).carryOut text? textless between? =
      (reply, revised?)) :
    (askAll (requests ++ [request])).carryOut text? textless revision? =
      (replies ++ [reply], revised?) := by
  induction requests generalizing revision? replies with
  | nil =>
    obtain ⟨rfl, rfl⟩ := Prod.mk.inj hrun
    rw [List.nil_append, askAll, carryOut_bind, hask]
    rfl
  | cons first later ih =>
    rw [askAll, carryOut_bind, carryOut_bind] at hrun
    rcases hlater : (askAll later).carryOut text? textless
      ((ask first.range first.inserted first.inside).carryOut text? textless revision?).2 with
      ⟨others, between⟩
    rw [hlater] at hrun
    obtain ⟨rfl, rfl⟩ := Prod.mk.inj hrun
    rw [List.cons_append, askAll, carryOut_bind, carryOut_bind, ih hlater]
    rfl

/-- An edit of a text that has been revised is either made or refused. -/
theorem carryOut_ask (text : Text) (textless : EditError) (revision : Revision)
    (request : EditRequest) :
    (ask request.range request.inserted request.inside).carryOut (some text) textless
        (some revision) =
      match revision.refusal? request.range with
      | none => (none, some (revision.accept request.range request.inserted request.inside))
      | some error => (some error, some revision) := by
  rw [ask, carryOut]
  simp only [Option.getD_some, Revision.replace]
  cases revision.refusal? request.range <;> rfl

/-- What one more request comes to. -/
theorem exists_ask (h : Answers text requests replies revision) (textless : EditError)
    (request : EditRequest) : ∃ reply revised,
      (ask request.range request.inserted request.inside).carryOut (some text) textless
        (some revision) = (reply, some revised) ∧
      Answers text (requests ++ [request]) (replies ++ [reply]) revised ∧
      reply = revision.refusal? request.range ∧
      (reply ≠ none → revised = revision) ∧
      (reply = none →
        revised = revision.accept request.range request.inserted request.inside) := by
  have hask := carryOut_ask text textless revision request
  cases hrefusal : revision.refusal? request.range with
  | none =>
    rw [hrefusal] at hask
    exact ⟨none, _, hask, h.accept hrefusal, rfl, fun hne => absurd rfl hne, fun _ => rfl⟩
  | some error =>
    rw [hrefusal] at hask
    exact ⟨some error, revision, hask, h.refuse request error, rfl, fun _ => rfl, nofun⟩

/-- Edits of a text may be asked for in any order and number. -/
theorem exists_askAll (text : Text) (textless : EditError) (requests : List EditRequest) :
    ∃ replies revision,
      (askAll requests).carryOut (some text) textless (some (.ofText text)) =
        (replies, some revision) ∧
      Answers text requests replies revision := by
  induction requests using List.reverseRecOn with
  | nil => exact ⟨[], .ofText text, rfl, .ofText text⟩
  | append_singleton requests request ih =>
    obtain ⟨replies, revision, hrun, hanswers⟩ := ih
    obtain ⟨reply, revised, hask, hanswered, -⟩ := exists_ask hanswers textless request
    exact ⟨replies ++ [reply], revised, carryOut_askAll_concat hrun hask, hanswered⟩

/-- A run of requests is answered one by one. The text after it is the text before all edits with
every accepted edit made, and where the insertions are said to stand it holds what was inserted. The
next edit is accepted exactly if its range lies in the text before all edits, cuts no character in
two and does not begin ahead of the end of the last accepted range. If it is refused nothing
changes; if it is accepted, what it replaces in the current text begins as far behind the start of
its range as the text has grown, lies in the current text and cuts no character in two. -/
theorem carryOut_askAll (text : Text) (textless : EditError) (requests : List EditRequest) :
    ∃ replies revision,
      (askAll requests).carryOut (some text) textless (some (.ofText text)) =
        (replies, some revision) ∧
      replies.length = requests.length ∧
      revision.base = text ∧
      revision.edits.map Edit.request = accepted requests replies ∧
      Patch.Turns ((accepted requests replies).map EditRequest.patch) 0 text revision.current ∧
      (∀ edit ∈ revision.edits,
        edit.after.Within revision.current 0 (Text.size revision.current) ∧
        revision.current.slice edit.after.start edit.after.stop = edit.inserted) ∧
      ∀ next, ∃ reply revised,
        (askAll (requests ++ [next])).carryOut (some text) textless (some (.ofText text)) =
          (replies ++ [reply], some revised) ∧
        (reply = none ↔ next.range.Within text 0 (Text.size text) ∧
          ∀ last ∈ (accepted requests replies).getLast?, last.range.stop ≤ next.range.start) ∧
        (reply ≠ none → revised = revision) ∧
        (reply = none → ∃ start : Nat,
          (start : Int) = next.range.start + growth revision.edits ∧
          Span.Within revision.current 0 (Text.size revision.current)
            ⟨start, start + next.range.length⟩ ∧
          revised =
            { base := text
              current := revision.current.upTo start ++
                (next.inserted ++ revision.current.since (start + next.range.length))
              edits := revision.edits ++ [⟨next.range,
                ⟨start, start + Text.size next.inserted⟩, next.inserted, next.inside⟩] }) := by
  obtain ⟨replies, revision, hrun, hanswers⟩ := exists_askAll text textless requests
  have hreachable := hanswers.reachable
  refine ⟨replies, revision, hrun, hanswers.length_eq, hreachable.base_eq, hanswers.edits_eq, ?_,
    fun edit hedit => ⟨hreachable.within_after hedit, hreachable.slice_after hedit⟩,
    fun next => ?_⟩
  · rw [← hanswers.edits_eq]
    exact hreachable.turns
  · obtain ⟨reply, revised, hask, -, hreply, hrefused, haccepted⟩ :=
      exists_ask hanswers textless next
    refine ⟨reply, revised, carryOut_askAll_concat hrun hask, ?_, hrefused, fun hnone => ?_⟩
    · rw [hreply]
      exact hanswers.refusal?_eq_none_iff
    · obtain ⟨start, hstart, hwithin, haccept⟩ :=
        hreachable.exists_splice (hreply.symm.trans hnone)
      exact ⟨start, hstart, hwithin, (haccepted hnone).trans haccept⟩

end Editing

end Retrace
