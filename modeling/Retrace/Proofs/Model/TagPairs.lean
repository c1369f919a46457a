import Retrace.Proofs.Model.Alike

/-!
# The tags of elements

The reader of documents closes the innermost open element at every end tag, whatever its name. The
names are compared when a model is read from the document: an element of the model needs an end tag
with its own name, and so does an unknown element among elements of the model. What an unknown
element contains is left out without a look at it. So the names of the tags in there are free, and
a change in there changes nothing about the model that is read.

## Main definitions

* `Markup.TagPair`: the two tags of an element, with the names of the elements around it;
* `Markup.Content.pairs`, `Markup.Root.pairs`: the pairs of tags in some markup;
* `Markup.TagPair.IsSkipped`: the element stands inside an unknown one;
* `Markup.Content.SameOutside`, `Markup.Root.SameOutside`: markup that differs in the contents of
  unknown elements only.

## Main results

* `Model.agrees_of_reads`: all end tags that are looked at have the names of their elements;
* `Model.Alike.reads_of_sameOutside`: the contents of unknown elements leave models alike;
* `Model.tags_of_read`: which tags have to agree in a document, and which do not matter;
* `Model.tags_of_read_crossed`: a document with tags that do not agree from which a model is read.
-/

namespace Retrace

open Markup

namespace Markup

/-! ## Pairs of tags -/

/-- The two tags of an element. -/
structure TagPair where
  /-- The names of the elements around it, the innermost one first. -/
  around : List Text
  /-- The tag at which it starts. -/
  start : Tag
  /-- The tag at which it ends. -/
  stop : EndTag
  deriving DecidableEq, Repr

namespace TagPair

/-- The end tag has the name of the element. -/
def Agrees (pair : TagPair) : Prop :=
  pair.stop.name = pair.start.name

/-- The element stands inside an unknown one, at any depth. -/
def IsSkipped (pair : TagPair) : Prop :=
  ∃ name ∈ pair.around, NodeKind.ofTag? name = none

instance (pair : TagPair) : Decidable pair.Agrees :=
  inferInstanceAs (Decidable (_ = _))

instance (pair : TagPair) : Decidable pair.IsSkipped :=
  inferInstanceAs (Decidable (∃ name ∈ pair.around, _))

end TagPair

/-- The pairs of tags in a content, at any depth, where the elements `around` stand around it. -/
def Content.pairs : (around : List Text) → Content → List TagPair
  | _, nil => []
  | around, chars _ next => next.pairs around
  | around, comment _ next => next.pairs around
  | around, empty _ next => next.pairs around
  | around, element tag inner close next =>
    ⟨around, tag, close⟩ :: (inner.pairs (tag.name :: around) ++ next.pairs around)

/-- The pairs of tags of a root element and of all elements inside it. -/
def Root.pairs : Root → List TagPair
  | empty _ => []
  | element tag inner close => ⟨[], tag, close⟩ :: inner.pairs [tag.name]

variable {pair : TagPair} {around : List Text} {content content' : Content}

/-- What stands around a content stands around every element in it. -/
theorem Content.subset_around_of_mem_pairs (h : pair ∈ content.pairs around) :
    around ⊆ pair.around := by
  induction content generalizing around with
  | nil => cases h
  | chars raw next ih => exact ih h
  | comment body next ih => exact ih h
  | empty tag next ih => exact ih h
  | element tag inner close next ihinner ihnext =>
    rcases List.mem_cons.1 h with rfl | h
    · exact List.Subset.refl _
    · rcases List.mem_append.1 h with hinner | hnext
      · exact List.Subset.trans (List.subset_cons_self _ _) (ihinner hinner)
      · exact ihnext hnext

/-- All elements inside an unknown one are skipped. -/
theorem Content.isSkipped_of_mem_pairs {name : Text} (hname : NodeKind.ofTag? name = none)
    (h : pair ∈ content.pairs (name :: around)) : pair.IsSkipped :=
  ⟨name, subset_around_of_mem_pairs h List.mem_cons_self, hname⟩

/-! ## Markup that is the same outside unknown elements -/

/-- Two contents are the same but for what unknown elements contain. -/
inductive Content.SameOutside : Content → Content → Prop where
  /-- There is nothing in either. -/
  | nil : SameOutside nil nil
  /-- Both begin with the same character data. -/
  | chars {raw : Text} {next next' : Content} : next.SameOutside next' →
    SameOutside (chars raw next) (chars raw next')
  /-- Both begin with the same comment. -/
  | comment {body : Text} {next next' : Content} : next.SameOutside next' →
    SameOutside (comment body next) (comment body next')
  /-- Both begin with the same element without content. -/
  | empty {tag : Tag} {next next' : Content} : next.SameOutside next' →
    SameOutside (empty tag next) (empty tag next')
  /-- Both begin with an unknown element, whose contents may be any. -/
  | unknown {tag : Tag} {inner inner' : Content} {close : EndTag} {next next' : Content} :
    NodeKind.ofTag? tag.name = none → next.SameOutside next' →
    SameOutside (element tag inner close next) (element tag inner' close next')
  /-- Both begin with an element whose contents are the same outside unknown ones. -/
  | element {tag : Tag} {inner inner' : Content} {close : EndTag} {next next' : Content} :
    inner.SameOutside inner' → next.SameOutside next' →
    SameOutside (element tag inner close next) (element tag inner' close next')

/-- Two root elements are the same but for what unknown elements inside them contain. -/
inductive Root.SameOutside : Root → Root → Prop where
  /-- Neither has a content. -/
  | empty {tag : Tag} : SameOutside (empty tag) (empty tag)
  /-- Their contents are the same outside unknown elements. -/
  | element {tag : Tag} {inner inner' : Content} {close : EndTag} : inner.SameOutside inner' →
    SameOutside (element tag inner close) (element tag inner' close)

theorem Content.SameOutside.symm (h : content.SameOutside content') :
    content'.SameOutside content := by
  induction h with
  | nil => exact .nil
  | chars _ ih => exact .chars ih
  | comment _ ih => exact .comment ih
  | empty _ ih => exact .empty ih
  | unknown hkind _ ih => exact .unknown hkind ih
  | element _ _ ihinner ihnext => exact .element ihinner ihnext

theorem Root.SameOutside.symm {root root' : Root} (h : root.SameOutside root') :
    root'.SameOutside root := by
  cases h with
  | empty => exact .empty
  | element hinner => exact .element hinner.symm

theorem Root.SameOutside.tag_eq {root root' : Root} (h : root.SameOutside root') :
    root'.tag = root.tag := by
  cases h <;> rfl

end Markup

namespace Model

variable {parent : NodeId} {parentKind : NodeKind} {offset : Nat} {content content' : Content}
  {model after : Model} {pair : TagPair}

/-! ## Tags that agree -/

/-- An element that holds a text contains no tags. -/
theorem pairs_eq_nil_of_readText {kind : NodeKind} {text : Text}
    (h : readText kind offset content = .ok text) (around : List Text) :
    content.pairs around = [] := by
  induction content generalizing offset text with
  | nil => rfl
  | chars raw next ih =>
    unfold readText at h
    split at h
    · cases h
    · obtain ⟨later, hlater, -⟩ := Except.map_eq_ok.1 h
      exact ih hlater
  | comment body next ih => exact ih h
  | empty tag next => cases h
  | element tag inner close next => cases h

/-- When a content is read, all end tags outside unknown elements have the names of their
elements. -/
theorem agrees_of_reads (h : Reads parent parentKind offset content model after)
    {around : List Text} (hpair : pair ∈ content.pairs around) (hskipped : ¬ pair.IsSkipped) :
    pair.Agrees := by
  induction h generalizing around with
  | nil model => cases hpair
  | chars _ _ ih => exact ih hpair
  | comment _ ih => exact ih hpair
  | unknownEmpty _ _ ih => exact ih hpair
  | textEmpty _ _ _ _ ih => exact ih hpair
  | holderEmpty _ _ _ _ ih => exact ih hpair
  | unknown hkind hclose _ ih =>
    rcases List.mem_cons.1 hpair with rfl | hpair
    · exact hclose
    · rcases List.mem_append.1 hpair with hinner | hnext
      · exact absurd (Content.isSkipped_of_mem_pairs hkind hinner) hskipped
      · exact ih hnext
  | text _ _ hclose _ hread _ ih =>
    -- There are no elements inside the text, so the pair is this one or stands behind it.
    rw [Content.pairs, pairs_eq_nil_of_readText hread, List.nil_append] at hpair
    rcases List.mem_cons.1 hpair with rfl | hnext
    · exact hclose
    · exact ih hnext
  | holder _ _ hclose _ _ _ ihinner ihnext =>
    rcases List.mem_cons.1 hpair with rfl | hpair
    · exact hclose
    · rcases List.mem_append.1 hpair with hinner | hnext
      · exact ihinner hinner
      · exact ihnext hnext

/-- When a root element is read, all end tags outside unknown elements have the names of their
elements. -/
theorem agrees_of_readRoot {element : Markup.Root} (h : readRoot offset element = .ok model)
    (hpair : pair ∈ element.pairs) (hskipped : ¬ pair.IsSkipped) : pair.Agrees := by
  obtain ⟨-, started, -, hreads⟩ := readRoot_eq_ok.1 h
  cases element with
  | empty tag => cases hpair
  | element tag inner close =>
    obtain ⟨hclose, hinner⟩ := hreads
    rcases List.mem_cons.1 hpair with rfl | hpair
    · exact hclose
    · exact agrees_of_reads hinner hpair hskipped

/-! ## Contents of unknown elements -/

/-- No text is changed. -/
def unchanged : NodeId → Option Text :=
  fun _ => none

theorem update_unchanged (id : NodeId) : Function.update unchanged id none = unchanged :=
  Function.update_eq_self id unchanged

theorem alike_unchanged_self (model : Model) : Alike unchanged model model where
  size_eq := rfl
  node_eq id := by
    show _ = { (model.node id).bare with text := (model.node id).text.map fun text => text }
    rw [Option.map_id']
    rfl

/-- A text that could be read is the same in markup that is the same outside unknown elements. -/
theorem readText_of_sameOutside {kind : NodeKind} {text : Text}
    (h : readText kind offset content = .ok text) (hsame : content.SameOutside content')
    (offset' : Nat) : readText kind offset' content' = .ok text := by
  induction hsame generalizing offset offset' text with
  | nil => exact h
  | chars _ ih =>
    unfold readText at h ⊢
    split at h
    · cases h
    · rename_i piece hpiece
      obtain ⟨later, hlater, rfl⟩ := Except.map_eq_ok.1 h
      rw [readRaw_of_readRaw hpiece offset']
      exact Except.map_eq_ok.2 ⟨later, ih hlater _, rfl⟩
  | comment _ ih => exact ih h _
  | empty _ _ => cases h
  | unknown _ _ _ => cases h
  | element _ _ _ _ => cases h

namespace Alike

variable {revised : Model}

/-- Reading markup that is the same outside unknown elements keeps models alike. -/
theorem reads_of_sameOutside (hreads : Reads parent parentKind offset content model after)
    (h : Alike unchanged model revised) (hsame : content.SameOutside content') (offset' : Nat) :
    ∃ after', Reads parent parentKind offset' content' revised after' ∧
      Alike unchanged after after' := by
  -- The start of an element leaves its text out of the account, which is no change here.
  induction hreads generalizing revised content' offset' with
  | nil model =>
    cases hsame
    exact ⟨revised, .nil revised, h⟩
  | chars hblank _ ih =>
    cases hsame with
    | chars hnext =>
      obtain ⟨after', hafter, halike⟩ := ih h hnext _
      exact ⟨after', .chars hblank hafter, halike⟩
  | comment _ ih =>
    cases hsame with
    | comment hnext =>
      obtain ⟨after', hafter, halike⟩ := ih h hnext _
      exact ⟨after', .comment hafter, halike⟩
  | unknownEmpty hkind _ ih =>
    cases hsame with
    | empty hnext =>
      obtain ⟨after', hafter, halike⟩ := ih h hnext _
      exact ⟨after', .unknownEmpty hkind hafter, halike⟩
  | textEmpty hkind htext hstart _ ih =>
    cases hsame with
    | empty hnext =>
      have hlt := (starts_of_readStart hstart).lt_size
      obtain ⟨started', hstart', hstarted⟩ := h.readStart hstart
      obtain ⟨after', hafter, halike⟩ := ih (hstarted.putText hlt rfl) hnext _
      exact ⟨after', .textEmpty hkind htext (hstart' _) hafter, halike⟩
  | holderEmpty hkind htext hstart _ ih =>
    cases hsame with
    | empty hnext =>
      obtain ⟨started', hstart', hstarted⟩ := h.readStart hstart
      rw [update_unchanged] at hstarted
      obtain ⟨after', hafter, halike⟩ := ih hstarted hnext _
      exact ⟨after', .holderEmpty hkind htext (hstart' _) hafter, halike⟩
  | unknown hkind hclose _ ih =>
    -- Whether the contents of the unknown element are the same makes no difference.
    cases hsame with
    | unknown _ hnext =>
      obtain ⟨after', hafter, halike⟩ := ih h hnext _
      exact ⟨after', .unknown hkind hclose hafter, halike⟩
    | element _ hnext =>
      obtain ⟨after', hafter, halike⟩ := ih h hnext _
      exact ⟨after', .unknown hkind hclose hafter, halike⟩
  | text hkind htext hclose hstart hread _ ih =>
    cases hsame with
    | unknown hnone _ =>
      rw [hkind] at hnone
      cases hnone
    | element hinner hnext =>
      have hlt := (starts_of_readStart hstart).lt_size
      obtain ⟨started', hstart', hstarted⟩ := h.readStart hstart
      obtain ⟨after', hafter, halike⟩ := ih (hstarted.putText hlt rfl) hnext _
      have hread' := readText_of_sameOutside hread hinner
      exact ⟨after', .text hkind htext hclose (hstart' _) (hread' _) hafter, halike⟩
  | holder hkind htext hclose hstart _ _ ihinner ihnext =>
    cases hsame with
    | unknown hnone _ =>
      rw [hkind] at hnone
      cases hnone
    | element hinner hnext =>
      obtain ⟨started', hstart', hstarted⟩ := h.readStart hstart
      rw [update_unchanged] at hstarted
      obtain ⟨inside', hinside, hinner'⟩ := ihinner hstarted hinner _
      obtain ⟨after', hafter, halike⟩ := ihnext hinner' hnext _
      exact ⟨after', .holder hkind htext hclose (hstart' _) hinside hafter, halike⟩

end Alike

/-- From root elements that are the same outside unknown elements the same model is read. -/
theorem alike_of_readRoot_of_sameOutside {element element' : Markup.Root}
    (h : readRoot offset element = .ok model) (hsame : element.SameOutside element')
    (offset' : Nat) : ∃ model', readRoot offset' element' = .ok model' ∧
      Alike unchanged model model' := by
  obtain ⟨hkind, started, hstarted, hreads⟩ := readRoot_eq_ok.1 h
  obtain ⟨started', hstarted', halike⟩ :=
    (alike_empty unchanged).readAttributes Nat.one_pos hstarted
  rw [← hsame.tag_eq] at hkind hstarted'
  cases hsame with
  | empty =>
    obtain rfl := hreads
    exact ⟨started', readRoot_eq_ok.2 ⟨hkind, started', hstarted' _, rfl⟩, halike⟩
  | @element tag inner inner' close hinner =>
    obtain ⟨hclose, hreads⟩ := hreads
    obtain ⟨model', hmodel', halike⟩ :=
      halike.reads_of_sameOutside hreads hinner (offset' + Text.size tag.startText)
    exact ⟨model', readRoot_eq_ok.2 ⟨hkind, started', hstarted' _, hclose, hmodel'⟩, halike⟩

/-- From documents that are the same outside unknown elements the same tree is read. -/
theorem detach_of_read_of_sameOutside {text text' : Text} {document document' : Document}
    (hdocument : Document.read text = .ok document)
    (hdocument' : Document.read text' = .ok document')
    (hsame : document.root.SameOutside document'.root) (h : read text = .ok model) :
    ∃ model', read text' = .ok model' ∧ model'.detach = model.detach := by
  obtain ⟨found, rooted, hfound, hrooted, rfl⟩ := read_eq_ok h
  obtain rfl := Except.ok.inj (hdocument.symm.trans hfound)
  obtain ⟨rooted', hrooted', halike⟩ :=
    alike_of_readRoot_of_sameOutside hrooted hsame (Text.size document'.prolog)
  refine ⟨{ rooted' with document := some text' }, ?_, ?_⟩
  · unfold read
    rw [hdocument']
    exact Except.map_eq_ok.2 ⟨rooted', hrooted', rfl⟩
  · show rooted'.detach = rooted.detach
    exact halike.detach_eq (alike_unchanged_self rooted)

/-- A model is read from a document in which every element outside unknown ones is closed by an end
tag with its name, and from no document with another end tag there. The tags inside unknown elements
may have any names: two documents that differ in the contents of unknown elements only are both read
as the same tree, or neither is read. -/
theorem tags_of_read (text : Text) :
    (∀ model, read text = .ok model → ∃ document, Document.read text = .ok document ∧
      document.text = text ∧ ∀ pair ∈ document.root.pairs, ¬ pair.IsSkipped → pair.Agrees) ∧
    ∀ document, Document.read text = .ok document →
      ((∃ pair ∈ document.root.pairs, ¬ pair.IsSkipped ∧ ¬ pair.Agrees) →
        ∃ error, read text = .error error) ∧
      ∀ text' document', Document.read text' = .ok document' →
        document.root.SameOutside document'.root →
          (read text).toOption.map detach = (read text').toOption.map detach := by
  have hagrees {document : Document} (hdocument : Document.read text = .ok document)
      {model : Model} (h : read text = .ok model) :
      ∀ pair ∈ document.root.pairs, ¬ pair.IsSkipped → pair.Agrees := by
    obtain ⟨found, rooted, hfound, hrooted, -⟩ := read_eq_ok h
    obtain rfl := Except.ok.inj (hdocument.symm.trans hfound)
    exact fun pair hpair => agrees_of_readRoot hrooted hpair
  refine ⟨fun model h => ?_, fun document hdocument => ⟨?_, ?_⟩⟩
  · obtain ⟨document, rooted, hdocument, -⟩ := read_eq_ok h
    exact ⟨document, hdocument, Document.text_of_read hdocument, hagrees hdocument h⟩
  · rintro ⟨pair, hpair, hskipped, hpair'⟩
    cases hread : read text with
    | error error => exact ⟨error, rfl⟩
    | ok model => exact absurd (hagrees hdocument hread pair hpair hskipped) hpair'
  · -- Either text is read as soon as the other one is.
    intro text' document' hdocument' hsame
    apply Option.ext
    intro tree
    simp only [Option.map_eq_some_iff, Except.toOption_eq_some]
    constructor
    · rintro ⟨model, h, rfl⟩
      exact detach_of_read_of_sameOutside hdocument hdocument' hsame h
    · rintro ⟨model, h, rfl⟩
      exact detach_of_read_of_sameOutside hdocument' hdocument hsame.symm h

/-- A document with an unknown element in which an end tag has the wrong name. -/
def crossed : Text :=
  "<nta><x><a></b></x></nta>".toList

/-- Inside an unknown element an end tag may have another name than the element that it closes. -/
theorem tags_of_read_crossed :
    (∃ model, read crossed = .ok model) ∧
      ∃ document, Document.read crossed = .ok document ∧
        ∃ pair ∈ document.root.pairs, ¬ pair.Agrees := by
  let inside : Content := .element ⟨"a".toList, [], []⟩ .nil ⟨"b".toList, []⟩ .nil
  let outside : Content := .element ⟨"x".toList, [], []⟩ inside ⟨"x".toList, []⟩ .nil
  refine ⟨⟨{ empty with document := some crossed }, ?_⟩,
    ⟨[], .element ⟨"nta".toList, [], []⟩ outside ⟨"nta".toList, []⟩, []⟩, ?_, ?_⟩
  · rw [← Except.toOption_eq_some]
    decide +kernel
  · rw [← Except.toOption_eq_some]
    decide +kernel
  · decide

end Model

end Retrace
