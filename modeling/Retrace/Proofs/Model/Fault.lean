import Retrace.Model.Document
import Retrace.Proofs.Markup.Stuck
import Retrace.Proofs.Text.Span

/-!
# The places of faults

Whatever is wrong with a document, the fault comes with a span that lies in the document and cuts no
character in two. The reader goes through the document part by part and carries along the offset at
which the part begins, so every span that it could blame is the span of some part: an element, an
end tag, a run of character data or a reference in it. Where not even the markup can be read, the
fault has the place where the reading got stuck.

## Main results

* `Markup.failsWith_decode`: references that stand for nothing are blamed where they stand;
* `Model.failsWith_readChildren`, `Model.failsWith_readRoot`: so is everything else in an element;
* `Model.failsWith_read`: the fault of a document lies in the document.
-/

namespace Retrace

variable {text : Text} {offset : Nat}

/-! ## References -/

namespace Markup

theorem failsWith_decodeInto (bound : Nat) (decoded : Text) {raw : Text}
    (h : text.StandsAt offset raw) :
    (decodeInto bound offset decoded raw).FailsWith fun error =>
      error.2.Within text 0 (Text.size text) := by
  -- What is left of the raw text stands behind the references that have been resolved.
  induction bound generalizing offset decoded raw with
  | zero => exact Except.failsWith_ok _
  | succ bound ih =>
    have hraw := List.takeWhile_append_dropWhile (p := (· ≠ '&')) (l := raw)
    have hstops := Text.stops_dropWhile (· ≠ '&') raw
    rw [decodeInto]
    dsimp only
    generalize raw.takeWhile (· ≠ '&') = plain at hraw ⊢
    generalize raw.dropWhile (· ≠ '&') = rest at hraw hstops ⊢
    subst hraw
    cases rest with
    | nil => exact Except.failsWith_ok _
    | cons c behind =>
      obtain rfl : c = '&' := by simpa using Text.stops_cons.1 hstops
      have hrest := h.tail
      dsimp only
      split
      · -- No reference ends, so all that is left is blamed.
        have hstop : offset + Text.size (plain ++ '&' :: behind) =
            offset + Text.size plain + Text.size ('&' :: behind) := by
          rw [Text.size_append, Nat.add_assoc]
        rw [hstop]
        exact Except.failsWith_error hrest.within
      · rename_i name later hcut
        obtain ⟨-, rfl⟩ := Text.cut?_eq_some.1 hcut
        have hname : text.StandsAt (offset + Text.size plain)
            (('&' :: (name ++ [';'])) ++ later) := by
          rw [List.cons_append, List.append_assoc]
          exact hrest
        have hstop : offset + Text.size plain + Text.size name + 2 =
            offset + Text.size plain + Text.size ('&' :: (name ++ [';'])) := by
          have hsemicolon : Text.size [';'] = 1 := rfl
          have hampersand : Char.utf8Size '&' = 1 := rfl
          rw [Text.size_cons, Text.size_append, hsemicolon, hampersand]
          omega
        rw [hstop]
        split
        · exact Except.failsWith_error hname.head.within
        · exact ih _ hname.tail

/-- A reference that stands for nothing is blamed where it stands. -/
theorem failsWith_decode {raw : Text} (h : text.StandsAt offset raw) :
    (decode offset raw).FailsWith fun error => error.2.Within text 0 (Text.size text) :=
  failsWith_decodeInto _ [] h

end Markup

namespace Model

open Markup

/-- The fault concerns a part of the text. -/
def LiesIn (text : Text) (error : DocumentError) : Prop :=
  error.span.Within text 0 (Text.size text)

theorem failsWith_readRaw {raw : Text} (h : text.StandsAt offset raw) :
    (readRaw offset raw).FailsWith (LiesIn text) :=
  Except.FailsWith.mapError fun error herror => failsWith_decode h error herror

/-! ## Elements -/

theorem failsWith_readAttributes (id : NodeId) {attributes : List Attribute}
    (h : text.StandsAt offset (attributes.flatMap Attribute.text)) (model : Model) :
    (readAttributes id offset attributes model).FailsWith (LiesIn text) := by
  induction attributes generalizing offset model with
  | nil => exact Except.failsWith_ok _
  | cons first later ih =>
    rw [List.flatMap_cons] at h
    have hfirst := h.head
    rw [Attribute.text, List.append_assoc] at hfirst
    rw [readAttributes]
    split
    · rename_i error hvalue
      exact Except.failsWith_error (failsWith_readRaw hfirst.tail.head error hvalue)
    · exact ih h.tail _

/-- The text of an element holds a bad reference or an element. -/
theorem failsWith_readText (kind : NodeKind) {content : Content}
    (h : text.StandsAt offset content.text) :
    (readText kind offset content).FailsWith (LiesIn text) := by
  induction content generalizing offset with
  | nil => exact Except.failsWith_ok _
  | chars raw next ih =>
    rw [readText]
    split
    · rename_i error hpiece
      exact Except.failsWith_error (failsWith_readRaw h.head error hpiece)
    · exact (ih h.tail).map _
  | comment body next ih => exact ih h.tail
  | empty tag next => exact Except.failsWith_error h.head.within
  | element tag inner close next =>
    rw [Content.text, ← List.append_assoc inner.text, ← List.append_assoc tag.startText] at h
    exact Except.failsWith_error h.head.within

theorem failsWith_checkClose (tag : Tag) {close : EndTag} (h : text.StandsAt offset close.text) :
    (checkClose tag close offset).FailsWith (LiesIn text) := by
  unfold checkClose
  split
  · exact Except.failsWith_ok _
  · exact Except.failsWith_error h.within

/-- The attributes of a tag stand behind its name. -/
theorem standsAt_attributes {tag : Tag} (h : text.StandsAt offset tag.front) :
    text.StandsAt (offset + 1 + Text.size tag.name) (tag.attributes.flatMap Attribute.text) := by
  rw [Tag.front, List.append_assoc] at h
  have hname : offset + 1 + Text.size tag.name = offset + Text.size ('<' :: tag.name) := by
    rw [Text.size_cons, Nat.add_assoc]
    rfl
  rw [hname]
  exact h.tail.head

/-- An element that may not stand where it does is blamed as a whole. -/
theorem failsWith_readStart (parent : NodeId) (kind : NodeKind) {tag : Tag} {span : Span}
    (hspan : span.Within text 0 (Text.size text)) (htag : text.StandsAt span.start tag.front)
    (model : Model) : (readStart parent kind tag span model).FailsWith (LiesIn text) := by
  refine Except.FailsWith.bind ?_ fun added _ => ?_
  · exact Except.FailsWith.mapError fun _ _ => hspan
  · exact (failsWith_readAttributes _ (standsAt_attributes htag) _).bind fun _ _ =>
      Except.failsWith_ok _

/-- What is wrong with the content of an element lies in it. -/
theorem failsWith_readChildren (parent : NodeId) (parentKind : NodeKind) {content : Content}
    (h : text.StandsAt offset content.text) (model : Model) :
    (readChildren parent parentKind offset content model).FailsWith (LiesIn text) := by
  induction content generalizing parent parentKind offset model with
  | nil => exact Except.failsWith_ok _
  | chars raw next ih =>
    rw [readChildren]
    split
    · exact ih _ _ h.tail _
    · exact Except.failsWith_error h.head.within
  | comment body next ih => exact ih _ _ h.tail _
  | empty tag next ih =>
    have hnext := h.tail
    have htag := h.head
    rw [readChildren]
    dsimp only
    split
    · exact ih _ _ hnext _
    · exact (failsWith_readStart _ _ htag.within htag.head _).bind fun _ _ => ih _ _ hnext _
  | element tag inner close next ihinner ihnext =>
    -- The tags and the inner content stand one behind the other, and together they are the element.
    have hinner := h.tail.head
    have hclose := h.tail.tail.head
    have hnext := h.tail.tail.tail
    have helement := h
    rw [Content.text, ← List.append_assoc inner.text, ← List.append_assoc tag.startText] at helement
    have hspan := helement.head.within
    rw [Text.size_append, Text.size_append, ← Nat.add_assoc, ← Nat.add_assoc] at hspan
    rw [readChildren]
    dsimp only
    split
    · exact (failsWith_checkClose tag hclose).bind fun _ _ => ihnext _ _ hnext _
    · refine (failsWith_readStart _ _ hspan h.head.head _).bind fun _ _ => ?_
      refine (failsWith_checkClose tag hclose).bind fun _ _ => ?_
      split
      · exact (failsWith_readText _ hinner).bind fun _ _ => ihnext _ _ hnext _
      · exact (ihinner _ _ hinner _).bind fun _ _ => ihnext _ _ hnext _

/-- What is wrong with the root element lies in it. -/
theorem failsWith_readRoot {element : Markup.Root} (h : text.StandsAt offset element.text) :
    (readRoot offset element).FailsWith (LiesIn text) := by
  unfold readRoot
  dsimp only
  split
  · cases element with
    | empty tag =>
      exact (failsWith_readAttributes _ (standsAt_attributes h.head) _).bind fun _ _ =>
        Except.failsWith_ok _
    | element tag inner close =>
      refine (failsWith_readAttributes _ (standsAt_attributes h.head.head) _).bind fun _ _ => ?_
      exact (failsWith_checkClose tag h.tail.tail).bind fun _ _ =>
        failsWith_readChildren _ _ h.tail.head _
  · exact Except.failsWith_error h.within

/-- Whatever is wrong with a document, the fault concerns a part of it. -/
theorem failsWith_read (text : Text) : (read text).FailsWith (LiesIn text) := by
  unfold read
  split
  · rename_i stuck hstuck
    have hboundary := Document.failsWith_read text stuck hstuck
    exact Except.failsWith_error ((Span.Within.point hboundary.le_size hboundary).mono
      (Nat.zero_le stuck) (Nat.le_refl _))
  · rename_i document hdocument
    have htext := Document.text_of_read hdocument
    exact (failsWith_readRoot ⟨document.prolog, document.epilog, htext.symm, rfl⟩).map _

end Model

end Retrace
