import Retrace.Proofs.Model.RoundTrip
import Retrace.Proofs.Text.Boundary
import Retrace.Proofs.Text.Find
import Retrace.Session

/-!
# The text before the root element

A session sets aside what stands before the root element and reads the rest. Where the root element
begins is found by a search for its name, while a document is read by a reader that knows comments,
processing instructions and document type declarations. The two agree whenever the name of the root
element does not come earlier in the document, be it in a comment. If it does, what is read is not
the root element, and the text comes back with a diagnostic unless it happens to be a model.

## Main results

* `Session.splitPreamble_append`: a text is split where the mark of the root element comes first;
* `Session.isBefore_splitPreamble`, `Session.exists_append_of_read`: the mark does not come in the
  first part, and the second part begins with it if it can be read;
* `Session.mapModel_of_extensions_eq_nil`: without extensions, texts come back unchanged;
* `Session.mapModel_markedText`: a comment can make a session complain about a model.
-/

namespace Retrace.Session

open Markup

variable {text front later : Text} {model : Model} {document : Document}

/-! ## Splitting a text -/

/-- A text is split where the mark of the root element comes first. -/
theorem splitPreamble_append (h : Text.IsBefore rootMark front) :
    splitPreamble (front ++ (rootMark ++ later)) = (front, rootMark ++ later) := by
  have hfind : Text.find? rootMark (front ++ (rootMark ++ later)) = some (Text.size front) :=
    Text.find?_eq_some.2 ⟨front, later, h, rfl, rfl⟩
  rw [splitPreamble, hfind]
  dsimp only
  rw [Text.split_eq, Text.upTo_append, Text.since_append]

/-- Splitting a text loses nothing. -/
theorem append_of_splitPreamble (text : Text) :
    (splitPreamble text).1 ++ (splitPreamble text).2 = text := by
  unfold splitPreamble
  split
  · rw [Text.split_eq]
    exact Text.upTo_append_since ..
  · rfl

/-- The mark of the root element does not begin in the first part. -/
theorem isBefore_splitPreamble (text : Text) : Text.IsBefore rootMark (splitPreamble text).1 := by
  unfold splitPreamble
  split
  · rename_i offset hfind
    obtain ⟨body, rest, hbody, rfl, rfl⟩ := Text.find?_eq_some.1 hfind
    rw [Text.split_eq, Text.upTo_append]
    exact hbody
  · trivial

/-! ## Root elements -/

/-- The root element of a model begins with its mark. -/
theorem exists_text_of_readRoot {offset : Nat} {element : Markup.Root}
    (h : Model.readRoot offset element = .ok model) :
    ∃ later, element.text = rootMark ++ later := by
  obtain ⟨hkind, -⟩ := Model.readRoot_eq_ok.1 h
  have hname := Model.tag_of_ofTag? hkind
  cases element with
  | empty tag =>
    refine ⟨tag.attributes.flatMap Attribute.text ++ tag.gap ++ Tag.closingMark, ?_⟩
    rw [Markup.Root.text, Tag.emptyText, Tag.front, ← show _ = tag.name from hname]
    rfl
  | element tag inner close =>
    refine ⟨tag.attributes.flatMap Attribute.text ++ tag.gap ++ ['>'] ++
      (inner.text ++ close.text), ?_⟩
    rw [Markup.Root.text, Tag.startText, Tag.front, ← show _ = tag.name from hname]
    rfl

/-- A text that begins with the mark of the root element has nothing in front of it. -/
theorem prolog_eq_nil_of_read (h : Document.read (rootMark ++ later) = .ok document) :
    document.prolog = [] := by
  obtain ⟨behind, -, hprolog, -⟩ := Document.read_eq_ok h
  have hnone : misc? (rootMark ++ later) = none := misc?_of_isNameStart rfl
  rw [miscs_of_misc? hnone] at hprolog
  exact (Prod.mk.inj hprolog).1.symm

/-- The second part of a text begins with the mark of the root element if it can be read. -/
theorem exists_append_of_read (h : Model.read (splitPreamble text).2 = .ok model) :
    ∃ later, (splitPreamble text).2 = rootMark ++ later := by
  cases hfind : Text.find? rootMark text with
  | some offset =>
    obtain ⟨body, rest, -, rfl, rfl⟩ := Text.find?_eq_some.1 hfind
    rw [splitPreamble, hfind]
    dsimp only
    rw [Text.split_eq, Text.since_append]
    exact ⟨rest, rfl⟩
  | none =>
    -- A text that can be read holds the mark, so it would have been found.
    obtain ⟨document, rooted, hdocument, hroot, -⟩ := Model.read_eq_ok h
    obtain ⟨later, hlater⟩ := exists_text_of_readRoot hroot
    rw [splitPreamble, hfind] at hdocument
    dsimp only at hdocument
    have htext := Document.text_of_read hdocument
    rw [Document.text, hlater, List.append_assoc] at htext
    rw [← htext] at hfind
    exact absurd hfind Text.find?_append_ne_none

/-- If the mark of the root element does not come before the root element, the rest of the text can
be read without what stands in front of it. -/
theorem exists_read_splitPreamble (hread : Model.read text = .ok model)
    (hdocument : Document.read text = .ok document)
    (hprolog : Text.find? rootMark document.prolog = none) :
    ∃ body, Model.read (splitPreamble text).2 = .ok body := by
  obtain ⟨document', rooted, hdocument', hroot, -⟩ := Model.read_eq_ok hread
  obtain rfl := Except.ok.inj (hdocument'.symm.trans hdocument)
  obtain ⟨later, hlater⟩ := exists_text_of_readRoot hroot
  have hbefore : Text.IsBefore rootMark document'.prolog :=
    Text.isBefore_of_find?_eq_none (by decide) hprolog
  have hsplit : (splitPreamble text).2 = document'.root.text ++ document'.epilog := by
    rw [← Document.text_of_read hdocument, Document.text, hlater, List.append_assoc,
      splitPreamble_append hbefore]
  -- The root element is read in the same way at the start of the text.
  obtain ⟨again, hagain, -⟩ := Model.alike_of_readRoot_at hroot (fun _ => none) 0
  rw [Markup.Root.revise_none] at hagain
  rw [hsplit, Model.read, Document.read_withoutProlog hdocument]
  exact ⟨_, Except.map_eq_ok.2 ⟨again, hagain, rfl⟩⟩

/-! ## Sessions without extensions -/

/-- A session without extensions gives every text back that is a model. It has nothing to say about
it exactly if the text can be read from the first mark of a root element on, in particular if this
mark does not come before the root element. -/
theorem mapModel_of_extensions_eq_nil {session : Session} (hextensions : session.extensions = [])
    (hformat : session.format = .markup) (hread : Model.read text = .ok model) :
    ∃ diagnostics,
      session.mapModel text = (.ok ⟨text, diagnostics⟩, { session with layers := [] }) ∧
      (diagnostics = [] ↔ ∃ body, Model.read (splitPreamble text).2 = .ok body) ∧
      ∀ document, Document.read text = .ok document →
        Text.find? rootMark document.prolog = none → diagnostics = [] := by
  have hpasses : session.passes = [] := by
    rw [passes, hextensions]
    rfl
  cases hbody : Model.read (splitPreamble text).2 with
  | error error =>
    refine ⟨[unreadable text (Text.size (splitPreamble text).1) (.document error)], ?_, ?_, ?_⟩
    · rw [mapModel]
      dsimp only
      rw [hformat]
      simp only [Format.markup, hbody]
      rfl
    · simp
    · intro document hdocument hprolog
      obtain ⟨body, hok⟩ := exists_read_splitPreamble hread hdocument hprolog
      rw [hbody] at hok
      cases hok
  | ok body =>
    refine ⟨[], ?_, iff_of_true rfl ⟨body, rfl⟩, fun _ _ _ => rfl⟩
    have hwrite : Format.markup.write body = .ok (splitPreamble text).2 :=
      Except.mapError_eq_ok.2 (Model.write_of_read hbody)
    have hok : Format.markup.read (splitPreamble text).2 = .ok body :=
      Except.mapError_eq_ok.2 hbody
    rw [mapModel]
    dsimp only
    rw [hformat, hok, hpasses]
    dsimp only [Run.passAll]
    rw [hwrite]
    dsimp only
    rw [append_of_splitPreamble]

/-- A model with a comment in front of it. -/
def commentedText : Text :=
  "<!-- a model --><nta/>".toList

/-- The model that `commentedText` holds. -/
def commentedModel : Model :=
  { Model.empty with document := some commentedText }

/-- A comment in front of a model comes back with it. -/
theorem mapModel_of_extensions_eq_nil_commentedText :
    Model.read commentedText = .ok commentedModel ∧
      ∃ diagnostics,
        ({ extensions := [] } : Session).mapModel commentedText =
          (.ok ⟨commentedText, diagnostics⟩, { extensions := [] }) ∧
        (diagnostics = [] ↔ ∃ body, Model.read (splitPreamble commentedText).2 = .ok body) ∧
        ∀ document, Document.read commentedText = .ok document →
          Text.find? rootMark document.prolog = none → diagnostics = [] := by
  have hread : Model.read commentedText = .ok commentedModel := by
    rw [← Except.toOption_eq_some]
    decide +kernel
  exact ⟨hread, mapModel_of_extensions_eq_nil rfl rfl hread⟩

/-- A model with the mark of a root element in a comment in front of it. -/
def markedText : Text :=
  "<!-- <nta> --><nta></nta>".toList

/-- The mark in the comment is taken for the root element: there is a diagnostic, although the text
is a model. -/
theorem mapModel_markedText :
    (∃ model, Model.read markedText = .ok model) ∧
      (({ extensions := [] } : Session).mapModel markedText).1 ≠ .ok ⟨markedText, []⟩ := by
  have hread : Model.read markedText =
      .ok { Model.empty with document := some markedText } := by
    rw [← Except.toOption_eq_some]
    decide +kernel
  refine ⟨⟨_, hread⟩, fun hmap => ?_⟩
  rw [← Except.toOption_eq_some] at hmap
  exact absurd hmap (by decide +kernel)

end Retrace.Session
