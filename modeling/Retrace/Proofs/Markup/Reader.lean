import Retrace.Markup.Reader
import Retrace.Proofs.Markup.Token

/-!
# Documents and their texts

A document is read exactly if it is the text of a well-formed one. The reader of contents keeps the
open elements on a stack, so its correctness is stated for any stack: every token is the last of
what has been read of the open elements (`Open.of_step`), hence what has been read, followed by what
is left, is the text of the element that is read in the end (`Open.of_readContent`). The other way
round, a well-formed content ends up, piece by piece, in the innermost element.

## Main definitions

* `Content.WellFormed`, `Root.WellFormed`: contents and root elements whose texts are read as these;
* `openText`: what has been read of the elements on the stack;
* `step`: what a token does to the stack;
* `Open`: what is known of the stack between two tokens;
* `IsMisc`: what may stand around the root element.

## Main results

* `readContent_append`: well-formed contents are read, whatever the stack;
* `readRoot_eq_ok`: the root elements that can be read are the well-formed ones;
* `Document.text_of_read`: a document that is read is written as it was;
* `Document.read_of_wellFormed`: well-formed root elements make documents;
* `Document.read_withRoot`: any well-formed element may take the place of the root element;
* `Document.read_withoutProlog`: a document can be read from its root element on.
-/

namespace Retrace.Markup

open Text (Stops stops_cons stops_append takeWhile_append dropWhile_append stops_dropWhile)

variable {rest : Text}

/-! ## Contents -/

namespace Content

/-- The first piece is character data. -/
def startsWithChars : Content → Bool
  | chars _ _ => true
  | _ => false

/-- A content that can be read: every piece of it can, and character data is never followed by more
character data. -/
def WellFormed : Content → Prop
  | nil => True
  | chars raw next =>
    (Token.chars raw).WellFormed ∧ next.startsWithChars = false ∧ next.WellFormed
  | comment body next => (Token.comment body).WellFormed ∧ next.WellFormed
  | empty tag next => tag.WellFormed ∧ next.WellFormed
  | element tag inner close next =>
    tag.WellFormed ∧ inner.WellFormed ∧ close.WellFormed ∧ next.WellFormed

/-- The number of tokens in a content. -/
def tokenCount : Content → Nat
  | nil => 0
  | chars _ next => next.tokenCount + 1
  | comment _ next => next.tokenCount + 1
  | empty _ next => next.tokenCount + 1
  | element _ inner _ next => inner.tokenCount + (next.tokenCount + 1) + 1

/-- The pieces of one content before those of another. -/
def append : Content → Content → Content
  | nil, behind => behind
  | chars raw next, behind => chars raw (next.append behind)
  | comment body next, behind => comment body (next.append behind)
  | empty tag next, behind => empty tag (next.append behind)
  | element tag inner close next, behind => element tag inner close (next.append behind)

/-- Reversing a part that is reversed puts its pieces back in order. -/
theorem reverseOnto_reverseOnto (content behind last : Content) :
    (content.reverseOnto behind).reverseOnto last = behind.reverseOnto (content.append last) := by
  induction content generalizing behind with
  | nil => rfl
  | chars raw next ih => exact ih (chars raw behind)
  | comment body next ih => exact ih (comment body behind)
  | empty tag next ih => exact ih (empty tag behind)
  | element tag inner close next _ ih => exact ih (element tag inner close behind)

theorem append_nil (content : Content) : content.append nil = content := by
  induction content with
  | nil => rfl
  | chars raw next ih => rw [append, ih]
  | comment body next ih => rw [append, ih]
  | empty tag next ih => rw [append, ih]
  | element tag inner close next _ ih => rw [append, ih]

theorem reverse_reverse (content : Content) : content.reverse.reverse = content := by
  rw [reverse, reverse, reverseOnto_reverseOnto, append_nil]
  rfl

/-- The text of pieces in reverse order ends with the text of the pieces behind them. -/
theorem text_reverseOnto (content behind : Content) :
    (content.reverseOnto behind).text = content.reverse.text ++ behind.text := by
  induction content generalizing behind with
  | nil => rfl
  | chars raw next ih =>
    rw [reverse, reverseOnto, reverseOnto, ih, ih (chars raw nil)]
    simp [Content.text]
  | comment body next ih =>
    rw [reverse, reverseOnto, reverseOnto, ih, ih (comment body nil)]
    simp [Content.text]
  | empty tag next ih =>
    rw [reverse, reverseOnto, reverseOnto, ih, ih (empty tag nil)]
    simp [Content.text]
  | element tag inner close next _ ih =>
    rw [reverse, reverseOnto, reverseOnto, ih, ih (element tag inner close nil)]
    simp [Content.text]

/-- Character data stays apart from character data in reverse order, too. -/
theorem WellFormed.reverseOnto {content behind : Content} (h : content.WellFormed)
    (hbehind : behind.WellFormed)
    (hapart : content.startsWithChars = false ∨ behind.startsWithChars = false) :
    (content.reverseOnto behind).WellFormed := by
  induction content generalizing behind with
  | nil => exact hbehind
  | chars raw next ih =>
    obtain ⟨hraw, hstart, hnext⟩ := h
    have hbefore : behind.startsWithChars = false := hapart.resolve_left Bool.noConfusion
    exact ih hnext ⟨hraw, hbefore, hbehind⟩ (Or.inl hstart)
  | comment body next ih => exact ih h.2 ⟨h.1, hbehind⟩ (Or.inr rfl)
  | empty tag next ih => exact ih h.2 ⟨h.1, hbehind⟩ (Or.inr rfl)
  | element tag inner close next _ ih =>
    obtain ⟨htag, hinner, hclose, hnext⟩ := h
    exact ih hnext ⟨htag, hinner, hclose, hbehind⟩ (Or.inr rfl)

/-- Only character data prolongs character data. -/
theorem stops_text {content : Content} (h : content.startsWithChars = false)
    (hrest : Stops (· ≠ '<') rest) : Stops (· ≠ '<') (content.text ++ rest) := by
  cases content with
  | nil => exact hrest
  | chars raw next => cases h
  | comment body next => exact stops_cons.2 rfl
  | empty tag next => exact stops_cons.2 rfl
  | element tag inner close next => exact stops_cons.2 rfl

/-- Every token takes some of the text. -/
theorem WellFormed.tokenCount_le {content : Content} (h : content.WellFormed) :
    content.tokenCount ≤ content.text.length := by
  -- Tags and comments have their marks, and character data that can be read is not empty.
  induction content with
  | nil => exact Nat.le_refl 0
  | chars raw next ih =>
    have hraw := List.length_pos_iff.2 h.1.1
    have hnext := ih h.2.2
    simp only [tokenCount, Content.text, List.length_append]
    omega
  | comment body next ih =>
    have hnext := ih h.2
    simp only [tokenCount, Content.text, commentText, List.length_append, List.length_cons]
    omega
  | empty tag next ih =>
    have hnext := ih h.2
    simp only [tokenCount, Content.text, Tag.emptyText, Tag.front, List.length_append,
      List.length_cons]
    omega
  | element tag inner close next ihinner ihnext =>
    have hinner := ihinner h.2.1
    have hnext := ihnext h.2.2.2
    simp only [tokenCount, Content.text, Tag.startText, Tag.front, EndTag.text,
      List.length_append, List.length_cons]
    omega

end Content

/-- A root element that can be read. -/
def Root.WellFormed : Root → Prop
  | empty tag => tag.WellFormed
  | element tag inner close => tag.WellFormed ∧ inner.WellFormed ∧ close.WellFormed

/-! ## The stack of open elements -/

/-- What has been read of an element. -/
def Pending.text (pending : Pending) : Text :=
  pending.tag.startText ++ pending.before.reverse.text

/-- What has been read of an element can be read. -/
def Pending.WellFormed (pending : Pending) : Prop :=
  pending.tag.WellFormed ∧ pending.before.WellFormed

/-- What has been read of all elements that are still open. -/
def openText (innermost : Pending) : (around : List Pending) → Text
  | [] => innermost.text
  | next :: outer => openText next outer ++ innermost.text

/-- What a token does to the open elements: it is added to the innermost one, opens another one or
closes the innermost one. When the last of them is closed, it is the root element. -/
def step (innermost : Pending) (around : List Pending) :
    Token → (Pending × List Pending) ⊕ Root
  | .chars raw => .inl (innermost.add (.chars raw), around)
  | .comment body => .inl (innermost.add (.comment body), around)
  | .empty tag => .inl (innermost.add (.empty tag), around)
  | .start tag => .inl (⟨tag, .nil⟩, innermost :: around)
  | .stop close =>
    match around with
    | [] => .inr (.element innermost.tag innermost.before.reverse close)
    | next :: outer =>
      .inl (next.add (.element innermost.tag innermost.before.reverse close), outer)

variable {text : Text} {bound offset : Nat} {innermost : Pending} {around : List Pending}
  {token : Token}

/-- A token is read as what it does to the open elements. -/
theorem readContent_succ (h : Token.read text = .ok (token, rest)) :
    readContent (bound + 1) innermost around offset text =
      match step innermost around token with
      | .inl (innermost, around) =>
        readContent bound innermost around (offset + Text.size token.text) rest
      | .inr root => .ok (root, rest) := by
  rw [readContent, h]
  cases token with
  | stop close => cases around <;> rfl
  | _ => rfl

/-- A piece that is added to an element is the last of its text. -/
theorem Pending.text_add {pending : Pending} {piece : Content → Content}
    (h : (piece pending.before).reverse = pending.before.reverseOnto (piece .nil)) :
    (pending.add piece).text = pending.text ++ (piece .nil).text := by
  rw [Pending.text, add, h, Content.text_reverseOnto, Pending.text, List.append_assoc]

/-- What is added to the innermost element stands behind all that has been read. -/
theorem openText_add {piece : Content → Content}
    (h : (piece innermost.before).reverse = innermost.before.reverseOnto (piece .nil)) :
    openText (innermost.add piece) around = openText innermost around ++ (piece .nil).text := by
  cases around with
  | nil => exact Pending.text_add h
  | cons next outer => rw [openText, openText, Pending.text_add h, List.append_assoc]

/-- What is known between two tokens: what has been read can be read, and the character data that
was read last, if it was, goes on no further. -/
structure Open (innermost : Pending) (around : List Pending) (rest : Text) : Prop where
  /-- All that has been read can be read. -/
  wellFormed : ∀ pending ∈ innermost :: around, pending.WellFormed
  /-- Character data has been read up to its end. -/
  stops : innermost.before.startsWithChars = true → Stops (· ≠ '<') rest

namespace Open

/-- Character data is only read where none has been read just before. -/
theorem startsWithChars_eq_false {raw : Text} (h : Open innermost around (raw ++ rest))
    (hraw : (Token.chars raw).WellFormed) : innermost.before.startsWithChars = false := by
  obtain ⟨hne, hall⟩ := hraw
  obtain ⟨c, later, rfl⟩ := List.exists_cons_of_ne_nil hne
  rw [← Bool.not_eq_true]
  intro htrue
  have hc := stops_cons.1 (h.stops htrue)
  rw [List.all_cons, hc] at hall
  cases hall

/-- A token that leaves elements open is the last of what has been read of them. -/
theorem of_step {innermost' : Pending} {around' : List Pending}
    (h : Open innermost around (token.text ++ rest)) (htoken : token.WellFormed)
    (hends : token.Ends rest) (hstep : step innermost around token = .inl (innermost', around')) :
    Open innermost' around' rest ∧
      openText innermost' around' = openText innermost around ++ token.text := by
  obtain ⟨⟨htag, hbefore⟩, haround⟩ := List.forall_mem_cons.1 h.wellFormed
  cases token with
  | chars raw =>
    obtain ⟨rfl, rfl⟩ := Prod.mk.inj (Sum.inl.inj hstep)
    -- Two runs of character data would be one, so none was read just before.
    have hapart := h.startsWithChars_eq_false htoken
    refine ⟨⟨List.forall_mem_cons.2 ⟨⟨htag, htoken, hapart, hbefore⟩, haround⟩, fun _ => hends⟩, ?_⟩
    rw [openText_add rfl, Content.text, Content.text, List.append_nil, Token.text]
  | comment body =>
    obtain ⟨rfl, rfl⟩ := Prod.mk.inj (Sum.inl.inj hstep)
    refine ⟨⟨List.forall_mem_cons.2 ⟨⟨htag, htoken, hbefore⟩, haround⟩, Bool.noConfusion⟩, ?_⟩
    rw [openText_add rfl, Content.text, Content.text, List.append_nil, Token.text]
  | empty tag =>
    obtain ⟨rfl, rfl⟩ := Prod.mk.inj (Sum.inl.inj hstep)
    refine ⟨⟨List.forall_mem_cons.2 ⟨⟨htag, htoken, hbefore⟩, haround⟩, Bool.noConfusion⟩, ?_⟩
    rw [openText_add rfl, Content.text, Content.text, List.append_nil, Token.text]
  | start tag =>
    obtain ⟨rfl, rfl⟩ := Prod.mk.inj (Sum.inl.inj hstep)
    refine ⟨⟨List.forall_mem_cons.2 ⟨⟨htoken, trivial⟩, h.wellFormed⟩, Bool.noConfusion⟩, ?_⟩
    rw [openText, Pending.text, Token.text]
    -- The new element holds nothing yet.
    exact congrArg (openText innermost around ++ ·) (List.append_nil _)
  | stop close =>
    cases around with
    | nil => cases hstep
    | cons next outer =>
      obtain ⟨rfl, rfl⟩ := Prod.mk.inj (Sum.inl.inj hstep)
      obtain ⟨⟨hnexttag, hnext⟩, houter⟩ := List.forall_mem_cons.1 haround
      -- The innermost element is complete and becomes a piece of the one around it.
      have hinner : innermost.before.reverse.WellFormed :=
        hbefore.reverseOnto trivial (Or.inr rfl)
      have hclosed : (next.add (.element innermost.tag innermost.before.reverse
          close)).WellFormed := ⟨hnexttag, htag, hinner, htoken, hnext⟩
      refine ⟨⟨List.forall_mem_cons.2 ⟨hclosed, houter⟩, Bool.noConfusion⟩, ?_⟩
      rw [openText_add rfl, openText]
      simp [Pending.text, Content.text, Token.text]

/-- The token that closes the last open element is the end of the root element. -/
theorem of_step_root {root : Root} (h : Open innermost around (token.text ++ rest))
    (htoken : token.WellFormed) (hstep : step innermost around token = .inr root) :
    root.WellFormed ∧ root.text = openText innermost around ++ token.text := by
  obtain ⟨⟨htag, hbefore⟩, -⟩ := List.forall_mem_cons.1 h.wellFormed
  cases token with
  | stop close =>
    cases around with
    | nil =>
      obtain rfl := Sum.inr.inj hstep
      refine ⟨⟨htag, hbefore.reverseOnto trivial (Or.inr rfl), htoken⟩, ?_⟩
      rw [Root.text, openText, Pending.text, Token.text, List.append_assoc]
    | cons next outer => cases hstep
  | _ => cases hstep

/-- What is read as an element is the text of one, up to the end of it. -/
theorem of_readContent {root : Root} (hopen : Open innermost around text)
    (h : readContent bound innermost around offset text = .ok (root, rest)) :
    root.WellFormed ∧ openText innermost around ++ text = root.text ++ rest := by
  -- Every token takes one from the bound and leaves the stack as `of_step` says.
  induction bound generalizing innermost around offset text with
  | zero => cases h
  | succ bound ih =>
    cases hread : Token.read text with
    | error stuck =>
      rw [readContent, hread] at h
      cases h
    | ok found =>
      obtain ⟨token, later⟩ := found
      obtain ⟨htoken, rfl, hends⟩ := Token.read_eq_ok.1 hread
      rw [readContent_succ hread] at h
      cases hstep : step innermost around token with
      | inl inside =>
        obtain ⟨innermost', around'⟩ := inside
        rw [hstep] at h
        obtain ⟨hopen', htext⟩ := hopen.of_step htoken hends hstep
        obtain ⟨hroot, hrest⟩ := ih hopen' h
        exact ⟨hroot, by rw [← hrest, htext, List.append_assoc]⟩
      | inr root' =>
        rw [hstep] at h
        obtain ⟨rfl, rfl⟩ := Prod.mk.inj (Except.ok.inj h)
        obtain ⟨hroot, htext⟩ := hopen.of_step_root htoken hstep
        exact ⟨hroot, by rw [htext, List.append_assoc]⟩

end Open

/-- A token that leaves elements open is read, and the rest is read with the elements that it leaves
open. -/
theorem readContent_of_step {innermost' : Pending} {around' : List Pending}
    (htoken : token.WellFormed) (hends : token.Ends rest)
    (hstep : step innermost around token = .inl (innermost', around')) :
    readContent (bound + 1) innermost around offset (token.text ++ rest) =
      readContent bound innermost' around' (offset + Text.size token.text) rest := by
  have hread : Token.read (token.text ++ rest) = .ok (token, rest) :=
    Token.read_eq_ok.2 ⟨htoken, rfl, hends⟩
  rw [readContent_succ hread, hstep]

/-- A well-formed content is read piece by piece into the innermost element. -/
theorem readContent_append {content before : Content} {tag : Tag} (h : content.WellFormed)
    (hrest : Stops (· ≠ '<') rest) :
    readContent (content.tokenCount + bound) ⟨tag, before⟩ around offset (content.text ++ rest) =
      readContent bound ⟨tag, content.reverseOnto before⟩ around
        (offset + Text.size content.text) rest := by
  induction content generalizing before bound offset tag around rest with
  | nil =>
    rw [Content.tokenCount, Nat.zero_add]
    rfl
  | chars raw next ih =>
    obtain ⟨hraw, hstart, hnext⟩ := h
    -- Character data ends where the next piece begins, since that is no character data.
    have hends : (Token.chars raw).Ends (next.text ++ rest) := Content.stops_text hstart hrest
    rw [Content.tokenCount, Nat.add_right_comm, Content.text, List.append_assoc]
    refine (readContent_of_step hraw hends rfl).trans ((ih hnext hrest).trans ?_)
    rw [Text.size_append, Nat.add_assoc]
    rfl
  | comment body next ih =>
    obtain ⟨hbody, hnext⟩ := h
    rw [Content.tokenCount, Nat.add_right_comm, Content.text, List.append_assoc]
    refine (readContent_of_step hbody trivial rfl).trans ((ih hnext hrest).trans ?_)
    rw [Text.size_append, Nat.add_assoc]
    rfl
  | empty single next ih =>
    obtain ⟨hsingle, hnext⟩ := h
    have htoken : (Token.empty single).WellFormed := hsingle
    rw [Content.tokenCount, Nat.add_right_comm, Content.text, List.append_assoc]
    refine (readContent_of_step htoken trivial rfl).trans ((ih hnext hrest).trans ?_)
    rw [Text.size_append, Nat.add_assoc]
    rfl
  | element start inner close next ihinner ihnext =>
    obtain ⟨hstart, hinner, hclose, hnext⟩ := h
    have hopening : (Token.start start).WellFormed := hstart
    have hclosing : (Token.stop close).WellFormed := hclose
    have hends : Stops (· ≠ '<') (close.text ++ (next.text ++ rest)) := stops_cons.2 rfl
    have hcount : (Content.element start inner close next).tokenCount + bound =
        inner.tokenCount + (next.tokenCount + bound + 1) + 1 := by
      rw [Content.tokenCount]
      omega
    have hreverse : (inner.reverseOnto .nil).reverse = inner := inner.reverse_reverse
    rw [hcount, Content.text]
    simp only [List.append_assoc]
    -- Behind the end tag the stack is what it was before the start tag, with one more piece on top.
    refine (readContent_of_step hopening trivial rfl).trans ((ihinner hinner hends).trans ?_)
    refine (readContent_of_step hclosing trivial rfl).trans ((ihnext hnext hrest).trans ?_)
    rw [hreverse]
    simp only [Text.size_append, Token.text, Nat.add_assoc]
    rfl

/-- What is read as a root element is the text of a well-formed one. -/
theorem of_readRoot {root : Root} (h : readRoot offset text = .ok (root, rest)) :
    root.WellFormed ∧ text = root.text ++ rest := by
  unfold readRoot at h
  split at h
  · split at h
    · rename_i tag behind htag
      obtain ⟨rfl, rfl⟩ := Prod.mk.inj (Except.ok.inj h)
      obtain ⟨-, htag, htext⟩ := Token.readTag_eq_ok.1 htag
      exact ⟨htag, htext⟩
    · rename_i tag behind htag
      obtain ⟨-, htag, htext⟩ := Token.readTag_eq_ok.1 htag
      -- Behind its start tag the root is the innermost element that is open, and the only one.
      have hopen : Open ⟨tag, .nil⟩ [] behind :=
        ⟨List.forall_mem_singleton.2 ⟨htag, trivial⟩, Bool.noConfusion⟩
      obtain ⟨hroot, hrest⟩ := hopen.of_readContent h
      refine ⟨hroot, ?_⟩
      rw [htext, ← hrest, openText, Pending.text]
      simp [Token.text, Content.reverse, Content.reverseOnto, Content.text]
    · cases h
    · cases h
  · cases h

/-- A well-formed root element is read up to its end. -/
theorem Root.WellFormed.readRoot {root : Root} (hroot : root.WellFormed) (offset : Nat)
    (rest : Text) : readRoot offset (root.text ++ rest) = .ok (root, rest) := by
  cases root with
  | empty tag =>
    obtain ⟨later, htext⟩ : ∃ later, tag.emptyText ++ rest = '<' :: later := ⟨_, rfl⟩
    rw [Root.text, htext, Markup.readRoot,
      Token.readTag_eq_ok.2 ⟨⟨tag, Or.inr rfl⟩, hroot, htext.symm⟩]
  | element tag inner close =>
    obtain ⟨htag, hinner, hclose⟩ := hroot
    obtain ⟨later, htext⟩ : ∃ later,
        tag.startText ++ (inner.text ++ (close.text ++ rest)) = '<' :: later := ⟨_, rfl⟩
    have hread : Token.readTag later = .ok (.start tag, inner.text ++ (close.text ++ rest)) :=
      Token.readTag_eq_ok.2 ⟨⟨tag, Or.inl rfl⟩, htag, htext.symm⟩
    have hstop : Token.read (close.text ++ rest) = .ok (.stop close, rest) :=
      Token.read_eq_ok.2 ⟨hclose, rfl, trivial⟩
    have hends : Stops (· ≠ '<') (close.text ++ rest) := stops_cons.2 rfl
    -- There are at least as many characters as tokens, so the bound is no limit.
    have hbound : inner.tokenCount ≤ (inner.text ++ (close.text ++ rest)).length := by
      rw [List.length_append]
      exact Nat.le_trans hinner.tokenCount_le (Nat.le_add_right ..)
    obtain ⟨more, hmore⟩ := Nat.exists_eq_add_of_le hbound
    rw [Root.text, List.append_assoc, List.append_assoc, htext, Markup.readRoot, hread]
    dsimp only
    rw [hmore, Nat.add_assoc, readContent_append hinner hends, readContent, hstop]
    dsimp only
    have hreverse : (inner.reverseOnto .nil).reverse = inner := inner.reverse_reverse
    rw [hreverse]

/-- The root elements that can be read are the well-formed ones. -/
theorem readRoot_eq_ok {root : Root} :
    readRoot offset text = .ok (root, rest) ↔ root.WellFormed ∧ text = root.text ++ rest := by
  constructor
  · exact of_readRoot
  · rintro ⟨hroot, rfl⟩
    exact hroot.readRoot offset rest

/-! ## What stands around the root element -/

/-- A piece of what may stand around the root element, in front of some text. -/
inductive IsMisc : (piece rest : Text) → Prop where
  /-- A comment. -/
  | comment {body rest : Text} : Text.IsBefore commentEnd body → IsMisc (commentText body) rest
  /-- A processing instruction. -/
  | instruction {body rest : Text} : Text.IsBefore ['?', '>'] body →
    IsMisc ('<' :: '?' :: body ++ ['?', '>']) rest
  /-- A document type declaration. -/
  | doctype {body rest : Text} : Text.IsBefore ['>'] body →
    IsMisc ('<' :: '!' :: "DOCTYPE".toList ++ body ++ ['>']) rest
  /-- All blanks up to something else. -/
  | blanks {blanks rest : Text} : blanks ≠ [] → blanks.all isSpace = true → Stops isSpace rest →
    IsMisc blanks rest

/-- What is read around the root element is a piece that may stand there. -/
theorem of_misc? {piece : Text} (h : misc? text = some (piece, rest)) :
    IsMisc piece rest ∧ text = piece ++ rest := by
  unfold misc? at h
  split at h
  · obtain ⟨⟨body, behind⟩, hcut, heq⟩ := Option.map_eq_some_iff.1 h
    obtain ⟨hbody, rfl⟩ := Text.cut?_eq_some.1 hcut
    obtain ⟨rfl, rfl⟩ := Prod.mk.inj heq
    exact ⟨.comment hbody, by simp [commentText]⟩
  · obtain ⟨⟨body, behind⟩, hcut, heq⟩ := Option.map_eq_some_iff.1 h
    obtain ⟨hbody, rfl⟩ := Text.cut?_eq_some.1 hcut
    obtain ⟨rfl, rfl⟩ := Prod.mk.inj heq
    exact ⟨.instruction hbody, by simp⟩
  · rename_i later _
    split at h
    · rename_i hprefix
      obtain ⟨⟨body, behind⟩, hcut, heq⟩ := Option.map_eq_some_iff.1 h
      obtain ⟨hbody, hlater⟩ := Text.cut?_eq_some.1 hcut
      obtain ⟨rfl, rfl⟩ := Prod.mk.inj heq
      -- The keyword was only looked at; it is dropped before the text is cut.
      obtain ⟨declared, rfl⟩ := List.isPrefixOf_iff_prefix.1 hprefix
      have hdrop : ("DOCTYPE".toList ++ declared).drop "DOCTYPE".length = declared := rfl
      rw [hdrop] at hlater
      exact ⟨.doctype hbody, by simp [hlater]⟩
    · cases h
  · dsimp only at h
    split at h
    · cases h
    · rename_i hne
      obtain ⟨rfl, rfl⟩ := Prod.mk.inj (Option.some.inj h)
      exact ⟨.blanks (fun hnil => hne (List.isEmpty_iff.2 hnil)) List.all_takeWhile
        (stops_dropWhile _ _), List.takeWhile_append_dropWhile.symm⟩

/-- A piece that may stand around the root element is read up to its end. -/
theorem IsMisc.misc? {piece : Text} (hpiece : IsMisc piece rest) :
    misc? (piece ++ rest) = some (piece, rest) := by
  cases hpiece with
  | @comment body _ hbody =>
    have hcut : Text.cut? commentEnd (body ++ (commentEnd ++ rest)) = some (body, rest) :=
      Text.cut?_eq_some.2 ⟨hbody, rfl⟩
    simp [commentText, Markup.misc?, hcut]
  | @instruction body _ hbody =>
    have hcut : Text.cut? ['?', '>'] (body ++ '?' :: '>' :: rest) = some (body, rest) :=
      Text.cut?_eq_some.2 ⟨hbody, rfl⟩
    simp [Markup.misc?, hcut]
  | @doctype body _ hbody =>
    have hcut : Text.cut? ['>'] (body ++ '>' :: rest) = some (body, rest) :=
      Text.cut?_eq_some.2 ⟨hbody, rfl⟩
    have hlength : "DOCTYPE".length = 7 := rfl
    simp [Markup.misc?, hlength, hcut]
  | blanks hne hall hrest =>
    obtain ⟨c, later, rfl⟩ := List.exists_cons_of_ne_nil hne
    -- Blanks are no bracket, so none of the other pieces is tried.
    have hc : c ≠ '<' := by
      rintro rfl
      cases hall
    have hempty : (c :: later).isEmpty = false := rfl
    unfold Markup.misc?
    split
    · simp_all
    · simp_all
    · simp_all
    · dsimp only
      rw [takeWhile_append hall hrest, dropWhile_append hall hrest, hempty,
        if_neg Bool.false_ne_true]

/-- The pieces around the root element are read as what they are. -/
theorem misc?_eq_some {piece : Text} :
    misc? text = some (piece, rest) ↔ IsMisc piece rest ∧ text = piece ++ rest := by
  constructor
  · exact of_misc?
  · rintro ⟨hpiece, rfl⟩
    exact hpiece.misc?

namespace IsMisc

/-- Of what follows a piece, its first character matters. -/
theorem congr {piece rest' : Text} (h : IsMisc piece rest) (hhead : rest'.head? = rest.head?) :
    IsMisc piece rest' := by
  cases h with
  | comment hbody => exact .comment hbody
  | instruction hbody => exact .instruction hbody
  | doctype hbody => exact .doctype hbody
  | blanks hne hall hrest => exact .blanks hne hall (hrest.congr hhead)

/-- Every piece takes some of the text. -/
theorem length_pos {piece : Text} (h : IsMisc piece rest) : 0 < piece.length := by
  cases h with
  | comment hbody => exact Nat.succ_pos _
  | instruction hbody => exact Nat.succ_pos _
  | doctype hbody => exact Nat.succ_pos _
  | blanks hne hall hrest => exact List.length_pos_iff.2 hne

end IsMisc

/-- What is read around the root element is a leading part of the text. -/
theorem append_of_miscs {bound : Nat} {front : Text} (h : miscs bound text = (front, rest)) :
    text = front ++ rest := by
  induction bound generalizing text front with
  | zero =>
    obtain ⟨rfl, rfl⟩ := Prod.mk.inj h
    rfl
  | succ bound ih =>
    unfold miscs at h
    split at h
    · rename_i piece behind hpiece
      -- A piece was read, and more of them may be behind it.
      obtain ⟨-, rfl⟩ := misc?_eq_some.1 hpiece
      obtain ⟨rfl, hrest⟩ := Prod.mk.inj h
      rw [List.append_assoc, ← ih (Prod.ext rfl hrest)]
    · obtain ⟨rfl, rfl⟩ := Prod.mk.inj h
      rfl

/-- Where no piece begins, none is read, whatever the bound. -/
theorem miscs_of_misc? (h : misc? text = none) (bound : Nat) : miscs bound text = ([], text) := by
  cases bound with
  | zero => rfl
  | succ bound => rw [miscs, h]

/-- What is read in front of a text is read in front of any text that begins in the same way and
begins no further piece. -/
theorem miscs_append {bound bound' : Nat} {front rest' : Text}
    (h : miscs bound text = (front, rest)) (hhead : rest'.head? = rest.head?)
    (hnone : misc? rest' = none) (hbound : front.length ≤ bound') :
    miscs bound' (front ++ rest') = (front, rest') := by
  induction bound generalizing text front bound' with
  | zero =>
    obtain ⟨rfl, rfl⟩ := Prod.mk.inj h
    exact miscs_of_misc? hnone bound'
  | succ bound ih =>
    unfold miscs at h
    split at h
    · rename_i piece behind hpiece
      obtain ⟨hmisc, -⟩ := misc?_eq_some.1 hpiece
      obtain ⟨rfl, hrest⟩ := Prod.mk.inj h
      have hlater : miscs bound behind = ((miscs bound behind).1, rest) := Prod.ext rfl hrest
      have hbehind := append_of_miscs hlater
      -- What follows the first piece still begins with the same character.
      have hsame : ((miscs bound behind).1 ++ rest').head? = behind.head? := by
        rw [congrArg List.head? hbehind, List.head?_append, List.head?_append, hhead]
      have hpos := hmisc.length_pos
      rw [List.length_append] at hbound
      cases bound' with
      | zero => omega
      | succ bound' =>
        rw [List.append_assoc, miscs, misc?_eq_some.2 ⟨hmisc.congr hsame, rfl⟩]
        dsimp only
        rw [ih hlater (by omega)]
    · obtain ⟨rfl, rfl⟩ := Prod.mk.inj h
      exact miscs_of_misc? hnone bound'

/-- The root element is none of the pieces around it. -/
theorem misc?_of_isNameStart {c : Char} (h : isNameStart c = true) :
    misc? ('<' :: c :: rest) = none := by
  have hmark : c ≠ '!' := by rintro rfl; exact absurd h (by decide)
  have hquestion : c ≠ '?' := by rintro rfl; exact absurd h (by decide)
  unfold misc?
  split
  · simp_all
  · simp_all
  · simp_all
  · rfl

/-! ## Documents -/

/-- A root element begins with an opening bracket and a name. -/
theorem Root.WellFormed.exists_text {root : Root} (h : root.WellFormed) :
    ∃ c later, isNameStart c = true ∧ root.text = '<' :: c :: later := by
  cases root with
  | empty tag =>
    obtain ⟨c, later, hstart, hfront⟩ := Tag.WellFormed.exists_front h
    exact ⟨c, later ++ Tag.closingMark, hstart, by rw [Root.text, Tag.emptyText, hfront]; rfl⟩
  | element tag inner close =>
    obtain ⟨c, later, hstart, hfront⟩ := Tag.WellFormed.exists_front h.1
    refine ⟨c, later ++ '>' :: (inner.text ++ close.text), hstart, ?_⟩
    rw [Root.text, Tag.startText, hfront, List.append_assoc]
    rfl

namespace Document

/-- What is known when a document could be read. -/
theorem read_eq_ok {document : Document} (h : Document.read text = .ok document) :
    ∃ behind, document.root.WellFormed ∧
      miscs text.length text = (document.prolog, document.root.text ++ behind) ∧
      miscs behind.length behind = (document.epilog, []) := by
  unfold Document.read at h
  dsimp only at h
  split at h
  · cases h
  · rename_i root behind hroot
    obtain ⟨hroot, hrest⟩ := readRoot_eq_ok.1 hroot
    split at h
    · rename_i hempty
      obtain rfl := Except.ok.inj h
      exact ⟨behind, hroot, Prod.ext rfl hrest, Prod.ext rfl (List.isEmpty_iff.1 hempty)⟩
    · cases h

/-- A document that is read is written as it was. -/
theorem text_of_read {document : Document} (h : Document.read text = .ok document) :
    document.text = text := by
  obtain ⟨behind, -, hprolog, hepilog⟩ := read_eq_ok h
  have hbehind := append_of_miscs hepilog
  rw [List.append_nil] at hbehind
  rw [append_of_miscs hprolog, Document.text, ← hbehind]

/-- The root element of a document that is read can be read. -/
theorem wellFormed_of_read {document : Document} (h : Document.read text = .ok document) :
    document.root.WellFormed := by
  obtain ⟨-, hroot, -⟩ := read_eq_ok h
  exact hroot

/-- Any well-formed element may take the place of the root element: what stands around it is read as
before. -/
theorem read_withRoot {document : Document} (h : Document.read text = .ok document) {root : Root}
    (hroot : root.WellFormed) :
    Document.read { document with root }.text = .ok { document with root } := by
  obtain ⟨behind, hold, hprolog, hepilog⟩ := read_eq_ok h
  obtain ⟨c, later, hstart, htext⟩ := hroot.exists_text
  obtain ⟨_, _, -, hbefore⟩ := hold.exists_text
  have hbehind := append_of_miscs hepilog
  rw [List.append_nil] at hbehind
  -- Both root elements begin with an opening bracket.
  have hhead : (root.text ++ behind).head? = (document.root.text ++ behind).head? := by
    rw [htext, hbefore]
    rfl
  -- Nothing of the new root element is taken for a piece in front of it.
  have hnone : misc? (root.text ++ behind) = none := by
    rw [htext]
    exact misc?_of_isNameStart hstart
  have hlength : document.prolog.length ≤ (document.prolog ++ (root.text ++ behind)).length := by
    rw [List.length_append]
    exact Nat.le_add_right ..
  have hempty : ([] : Text).isEmpty = true := rfl
  unfold Document.read
  dsimp only
  rw [Document.text, ← hbehind, miscs_append hprolog hhead hnone hlength]
  dsimp only
  rw [readRoot_eq_ok.2 ⟨hroot, rfl⟩]
  dsimp only
  rw [hepilog, hempty, if_pos rfl, hbehind]

/-- A well-formed root element is read together with what may stand behind it. -/
theorem read_of_wellFormed {root : Root} {epilog : Text} (hroot : root.WellFormed)
    (hepilog : miscs epilog.length epilog = (epilog, [])) :
    Document.read (root.text ++ epilog) = .ok ⟨[], root, epilog⟩ := by
  obtain ⟨c, later, hstart, htext⟩ := hroot.exists_text
  have hnone : misc? (root.text ++ epilog) = none := by
    rw [htext]
    exact misc?_of_isNameStart hstart
  unfold Document.read
  rw [miscs_of_misc? hnone]
  dsimp only
  rw [readRoot_eq_ok.2 ⟨hroot, rfl⟩]
  dsimp only
  rw [hepilog]
  rfl

/-- What stands before the root element may be left out. -/
theorem read_withoutProlog {document : Document} (h : Document.read text = .ok document) :
    Document.read (document.root.text ++ document.epilog) = .ok { document with prolog := [] } := by
  obtain ⟨behind, hroot, -, hepilog⟩ := read_eq_ok h
  obtain rfl : behind = document.epilog := by
    rw [append_of_miscs hepilog, List.append_nil]
  exact read_of_wellFormed hroot hepilog

end Document

end Retrace.Markup
