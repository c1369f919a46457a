import Retrace.Proofs.Model.Fault
import Retrace.Proofs.Session.Standard
import Retrace.Proofs.Text.Position

/-!
# Models that cannot be read

A model that cannot be read comes back unchanged with one diagnostic about it. The fault has a place
in the text behind the preamble, and the diagnostic has the same place in the text that was sent:
its range stands for the bytes that the fault is about. What the session kept of an earlier model
is gone by then, so no diagnostic is moved any more.

## Main definitions

* `Fault.place`: where in the input a fault lies;
* `Format.Locates`: a format whose faults lie in what it could not read.

## Main results

* `Format.locates_markup`: model documents are such a format;
* `Session.mapModel_of_unreadable`: what a session makes of a model that cannot be read.
-/

namespace Retrace

/-- Where in the input a fault lies; one without a place of its own lies at the start. -/
def Fault.place (fault : Fault) : Span :=
  fault.span?.getD (.point 0)

/-- Whatever a format cannot read, the fault is one of the input, and if it has a place, this is a
part of the input. -/
structure Format.Locates (format : Format) : Prop where
  /-- The input is to blame. -/
  isInput : ∀ {text fault}, format.read text = .error fault → fault.isInput = true
  /-- Places lie in the input. -/
  within : ∀ {text fault}, format.read text = .error fault →
    ∀ span ∈ fault.span?, span.Within text 0 (Text.size text)

/-- All faults of model documents have a place in the document. -/
theorem Format.locates_markup : Format.markup.Locates where
  isInput := Session.isInput_of_read
  within {text fault} h span hspan := by
    have hread : (Model.read text).mapError Fault.document = .error fault := h
    have hfails : (Format.markup.read text).FailsWith fun fault =>
        ∀ span ∈ fault.span?, span.Within text 0 (Text.size text) := by
      refine Except.FailsWith.mapError fun error herror span hspan => ?_
      obtain rfl := Option.some.inj hspan
      exact Model.failsWith_read text error herror
    exact hfails fault h span hspan

/-- Every fault has a place in the input, be it the start. -/
theorem Format.Locates.within_place {format : Format} (h : format.Locates) {text : Text}
    {fault : Fault} (hread : format.read text = .error fault) :
    fault.place.Within text 0 (Text.size text) := by
  cases hspan : fault.span? with
  | some span =>
    rw [Fault.place, hspan]
    exact h.within hread span hspan
  | none =>
    rw [Fault.place, hspan]
    exact .point (Nat.zero_le _) (Text.isBoundary_size_append [] text)

namespace Session

/-- Model documents are a format that says where its faults lie. With any such format, a model that
cannot be read comes back unchanged, whatever the extensions are and whatever was sent before. The
one diagnostic is unrecoverable, concerns the model as a whole and has the message of the fault.
The fault lies in the body, and the range of the diagnostic lies behind the preamble and stands for
the same bytes of the text that was sent. Afterwards diagnostics stay as they are. -/
theorem mapModel_of_unreadable :
    Format.markup.Locates ∧
      ∀ {session : Session} {text preamble body : Text} {fault : Fault}, session.format.Locates →
        splitPreamble text = (preamble, body) → session.format.read body = .error fault →
        text = preamble ++ body ∧ fault.place.Within body 0 (Text.size body) ∧
        ∃ range : Range,
          session.mapModel text =
            (.ok ⟨text, [{
                path := "/nta"
                range
                message := fault.message
                severity := .unrecoverable }]⟩, { session with layers := [] }) ∧
          range.toSpan text = fault.place.shift (Text.size preamble) ∧
          (range.toSpan text).Within text (Text.size preamble) (Text.size text) ∧
          text.slice (range.toSpan text).start (range.toSpan text).stop =
            body.slice fault.place.start fault.place.stop ∧
          ∀ diagnostic,
            ({ session with layers := [] } : Session).retrace? diagnostic = some diagnostic := by
  refine ⟨Format.locates_markup, fun {session text preamble body fault} hformat hsplit hread => ?_⟩
  obtain rfl : text = preamble ++ body := by
    have happend := append_of_splitPreamble text
    rw [hsplit] at happend
    exact happend.symm
  have hplace := hformat.within_place hread
  have hshift := hplace.shift preamble
  have hspan := Range.toSpan_ofSpan hshift.le hshift.isBoundary_start hshift.isBoundary_stop
  refine ⟨rfl, hplace, .ofSpan (preamble ++ body) (fault.place.shift (Text.size preamble)), ?_,
    hspan, ?_, ?_, fun _ => rfl⟩
  · have hbody : session.format.read (splitPreamble (preamble ++ body)).2 = .error fault := by
      rw [hsplit]
      exact hread
    have hmap := mapModel_of_isInput hbody (hformat.isInput hread)
    rw [hsplit] at hmap
    exact hmap
  · rw [hspan]
    exact hshift
  · rw [hspan, Span.shift, Nat.add_comm, Nat.add_comm fault.place.stop]
    exact Text.slice_size_add

/-- A model with a reference that stands for nothing, behind characters of several bytes. -/
def unknownReference : Text :=
  "é\n<nta><declaration>€ &euro; b</declaration></nta>".toList

/-- The diagnostic is about the reference, which begins at byte 22 of the body, and a layer that was
left is gone. -/
theorem mapModel_of_unreadable_unknownReference :
    ∃ range : Range,
      ({ extensions := [], layers := [{}] } : Session).mapModel unknownReference =
        (.ok ⟨unknownReference, [{
            path := "/nta"
            range
            message := "unknown entity '&euro;'"
            severity := .unrecoverable }]⟩, { extensions := [] }) ∧
      range.toSpan unknownReference = ⟨22 + 3, 28 + 3⟩ ∧
      unknownReference.slice (range.toSpan unknownReference).start
        (range.toSpan unknownReference).stop = "&euro;".toList := by
  obtain ⟨hmarkup, hunreadable⟩ := mapModel_of_unreadable
  have hsplit : splitPreamble unknownReference =
      ("é\n".toList, "<nta><declaration>€ &euro; b</declaration></nta>".toList) := by
    decide +kernel
  have hread : Model.read "<nta><declaration>€ &euro; b</declaration></nta>".toList =
      .error ⟨.reference (.unknown "euro".toList), ⟨22, 28⟩⟩ := by
    rfl
  have hfault : Format.markup.read "<nta><declaration>€ &euro; b</declaration></nta>".toList =
      .error (.document ⟨.reference (.unknown "euro".toList), ⟨22, 28⟩⟩) :=
    congrArg (Except.mapError Fault.document) hread
  obtain ⟨-, -, range, hmap, hspan, -, hslice, -⟩ :=
    @hunreadable { extensions := [], layers := [{}] } _ _ _ _ hmarkup hsplit hfault
  refine ⟨range, hmap, ?_, ?_⟩
  · exact hspan
  · exact hslice

end Session

end Retrace
