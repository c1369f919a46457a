import Retrace.Proofs.Except
import Retrace.Proofs.Markup.Reader
import Retrace.Proofs.Text.Boundary

/-!
# Where documents cannot be read on

When a document cannot be read, the reader tells how far it got. It reads whole characters, so this
is always between two characters of the document: a token gets stuck somewhere in the text that is
left (`Token.failsWith_read`), and offsets in what is left are moved along with every token
(`StuckIn.append`).

## Main definitions

* `StuckIn`: the reading of a text that begins at some offset got stuck between two characters.

## Main results

* `failsWith_readContent`, `failsWith_readRoot`: so it does inside the root element;
* `Document.failsWith_read`: so it does in a whole document.
-/

namespace Retrace.Markup

variable {text : Text}

/-- The reading of a text that begins at `offset` got stuck between two characters of it. -/
def StuckIn (offset : Nat) (text : Text) (stuck : Nat) : Prop :=
  ∃ bytes, text.IsBoundary bytes ∧ stuck = offset + bytes

namespace StuckIn

variable {offset stuck : Nat} {front back : Text}

theorem start (offset : Nat) (text : Text) : StuckIn offset text offset :=
  ⟨0, Text.isBoundary_size_append [] text, rfl⟩

/-- What is behind a part that was read is a part of the whole text. -/
theorem append (h : StuckIn (offset + Text.size front) back stuck) :
    StuckIn offset (front ++ back) stuck := by
  obtain ⟨bytes, hbytes, rfl⟩ := h
  exact ⟨Text.size front + bytes, Text.isBoundary_append.2 hbytes, Nat.add_assoc ..⟩

/-- An offset in a text that begins at the front of a document is an offset of the document. -/
theorem isBoundary (h : StuckIn (Text.size front) back stuck) :
    (front ++ back).IsBoundary stuck := by
  obtain ⟨bytes, hbytes, rfl⟩ := h
  exact Text.isBoundary_append.2 hbytes

end StuckIn

/-! ## Tokens -/

/-- An end tag gets stuck behind its opening bracket or behind its first two characters. -/
theorem EndTag.failsWith_read (rest : Text) :
    (EndTag.read rest).FailsWith (Text.IsBoundary ('<' :: '/' :: rest)) := by
  have hone : Text.IsBoundary ('<' :: '/' :: rest) 1 :=
    Text.isBoundary_size_append ['<'] _
  have htwo : Text.IsBoundary ('<' :: '/' :: rest) 2 :=
    Text.isBoundary_size_append ['<', '/'] _
  unfold EndTag.read
  split
  · exact Except.failsWith_error htwo
  · split
    · exact Except.failsWith_ok _
    · exact Except.failsWith_error hone

/-- A tag gets stuck behind its opening bracket or where it should have ended. -/
theorem Token.failsWith_readTag (rest : Text) :
    (readTag rest).FailsWith (Text.IsBoundary ('<' :: rest)) := by
  unfold readTag
  split
  · exact Except.failsWith_error (Text.isBoundary_size_append ['<'] rest)
  · exact Except.failsWith_ok _
  · exact Except.failsWith_ok _
  · rename_i tag behind _ _ htag
    obtain ⟨-, htext⟩ := Tag.of_read? htag
    rw [htext]
    exact Except.failsWith_error (Text.isBoundary_size_append tag.front behind)

/-- A token gets stuck between two characters. -/
theorem Token.failsWith_read (text : Text) : (read text).FailsWith text.IsBoundary := by
  unfold read
  split
  · exact Except.failsWith_error (Text.isBoundary_size_append [] [])
  · exact (EndTag.failsWith_read _).map _
  · split
    · exact Except.failsWith_ok _
    · exact Except.failsWith_error (Text.isBoundary_size_append ['<'] _)
  · exact failsWith_readTag _
  · exact Except.failsWith_ok _

/-! ## Elements and documents -/

/-- Inside the root element, the reading gets stuck between two characters of what is left. -/
theorem failsWith_readContent (bound : Nat) (innermost : Pending) (around : List Pending)
    (offset : Nat) (text : Text) :
    (readContent bound innermost around offset text).FailsWith (StuckIn offset text) := by
  -- Each token that is read moves the offset along with the text.
  induction bound generalizing innermost around offset text with
  | zero => exact Except.failsWith_error (.start offset text)
  | succ bound ih =>
    cases hread : Token.read text with
    | error stuck =>
      rw [readContent, hread]
      exact Except.failsWith_error ⟨stuck, Token.failsWith_read text stuck hread, rfl⟩
    | ok found =>
      obtain ⟨token, rest⟩ := found
      obtain ⟨-, rfl, -⟩ := Token.read_eq_ok.1 hread
      rw [readContent_succ hread]
      split
      · intro stuck hstuck
        exact (ih _ _ _ _ stuck hstuck).append
      · exact Except.failsWith_ok _

/-- The root element gets stuck between two characters. -/
theorem failsWith_readRoot (offset : Nat) (text : Text) :
    (readRoot offset text).FailsWith (StuckIn offset text) := by
  unfold readRoot
  split
  · rename_i rest
    split
    · exact Except.failsWith_ok _
    · rename_i tag behind htag
      obtain ⟨-, -, htext⟩ := Token.readTag_eq_ok.1 htag
      intro stuck hstuck
      rw [htext]
      exact (failsWith_readContent _ _ _ _ _ stuck hstuck).append
    · exact Except.failsWith_error (.start offset _)
    · rename_i stuck htag
      exact Except.failsWith_error ⟨stuck, Token.failsWith_readTag rest stuck htag, rfl⟩
  · exact Except.failsWith_error (.start offset text)

/-- A document gets stuck between two characters. -/
theorem Document.failsWith_read (text : Text) :
    (Document.read text).FailsWith text.IsBoundary := by
  unfold Document.read
  rcases hprolog : miscs text.length text with ⟨prolog, rest⟩
  obtain rfl := append_of_miscs hprolog
  dsimp only
  split
  · rename_i stuck hroot
    exact Except.failsWith_error (failsWith_readRoot _ _ stuck hroot).isBoundary
  · rename_i root behind hroot
    obtain ⟨-, rfl⟩ := of_readRoot hroot
    rcases hepilog : miscs behind.length behind with ⟨epilog, left⟩
    obtain rfl := append_of_miscs hepilog
    dsimp only
    split
    · exact Except.failsWith_ok _
    · -- All that was read is a document in front of what is left.
      have htext : prolog ++ (root.text ++ (epilog ++ left)) =
          (Document.mk prolog root epilog).text ++ left := by
        simp only [Document.text, List.append_assoc]
      rw [htext]
      exact Except.failsWith_error (Text.isBoundary_size_append _ left)

end Retrace.Markup
