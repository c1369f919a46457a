import Retrace.Model.Writer
import Retrace.Proofs.Markup.Reader
import Retrace.Proofs.Markup.Reference
import Retrace.Proofs.Model.Order
import Retrace.Proofs.Model.Revise

/-!
# The markup of rendered models

A model without a document is written from scratch, one element to a line. What is written is the
text of the markup that is put together here, element by element, and this markup can be read: names
of attributes aside, nothing in a model can spoil it. Line breaks and indents only ever stand
between the elements inside an element, never beside a text.

## Main definitions

* `Model.renderedOnto`: a rendered element in front of some content;
* `Model.renderedRoot`: the rendered root element;
* `Model.Named`: the attributes of a model have names that can be read.

## Main results

* `Model.render_eq_text`: a rendered model is the text of its markup, in front of a line break;
* `Model.wellFormed_renderedRoot`: the markup of a rendered model can be read.
-/

namespace Retrace

open Markup

/-! ## Tags -/

/-- An attribute as it is rendered. -/
def Markup.Attribute.rendered (entry : Text × Text) : Attribute :=
  ⟨[' '], entry.1, [], [], .double, encodeValue entry.2⟩

namespace Node

/-- The tag at which the rendered element starts. -/
def startTag (node : Node) : Tag :=
  ⟨node.kind.tag.toList, node.attributes.map Attribute.rendered, []⟩

/-- The end tag of the rendered element. -/
def endTag (node : Node) : EndTag :=
  ⟨node.kind.tag.toList, []⟩

end Node

/-- The name of a kind is a name. -/
theorem NodeKind.isName_tag (kind : NodeKind) : isName kind.tag.toList = true := by
  have h : ∀ kind ∈ all, isName kind.tag.toList = true := by decide
  exact h kind (mem_all kind)

namespace Model

/-- All attributes have names that can be read. -/
def Named (model : Model) : Prop :=
  ∀ id, ∀ entry ∈ (model.node id).attributes, isName entry.1 = true

/-! ## Elements -/

/-- The line break and the indent in front of an element or an end tag. -/
def lineBreak (depth : Nat) : Text :=
  '\n' :: indent depth

/-- A rendered element with those inside it, at most `bound` levels deep, in front of `next`. -/
def renderedOnto (model : Model) : (bound depth : Nat) → NodeId → (next : Content) → Content
  | 0, _, _, next => next
  | bound + 1, depth, id, next =>
    let node := model.node id
    match node.text with
    | some text => .element node.startTag (.ofText text) node.endTag next
    | none =>
      if node.children.isEmpty then .empty node.startTag next
      else
        let inner := node.children.foldr (fun child later =>
            .chars (lineBreak (depth + 1)) (model.renderedOnto bound (depth + 1) child later))
          (.chars (lineBreak depth) .nil)
        .element node.startTag inner node.endTag next

/-- Rendered elements, each on a line of its own, in front of `last`. -/
def renderedAll (model : Model) (bound depth : Nat) (ids : List NodeId) (last : Content) :
    Content :=
  ids.foldr (fun child later =>
    .chars (lineBreak depth) (model.renderedOnto bound depth child later)) last

/-- The rendered root element. -/
def renderedRoot (model : Model) : Markup.Root :=
  let node := model.node root
  if node.children.isEmpty then .empty node.startTag
  else .element node.startTag
    (model.renderedAll (model.size - 1) 1 node.children (.chars (lineBreak 0) .nil)) node.endTag

variable {model : Model} {bound depth id : Nat} {ids : List NodeId} {next last : Content}

theorem renderedOnto_of_text {text : Text} (h : (model.node id).text = some text) :
    model.renderedOnto (bound + 1) depth id next =
      .element (model.node id).startTag (.ofText text) (model.node id).endTag next := by
  simp only [renderedOnto, h]

theorem renderedOnto_of_isEmpty (htext : (model.node id).text = none)
    (h : (model.node id).children = []) :
    model.renderedOnto (bound + 1) depth id next = .empty (model.node id).startTag next := by
  simp only [renderedOnto, htext, h, List.isEmpty_nil, if_pos]

theorem renderedOnto_of_ne_nil (htext : (model.node id).text = none)
    (h : (model.node id).children ≠ []) :
    model.renderedOnto (bound + 1) depth id next =
      .element (model.node id).startTag
        (model.renderedAll bound (depth + 1) (model.node id).children
          (.chars (lineBreak depth) .nil)) (model.node id).endTag next := by
  simp only [renderedOnto, htext, List.isEmpty_eq_false_iff.2 h, Bool.false_eq_true, if_false,
    renderedAll]

theorem renderedAll_cons (child : NodeId) (later : List NodeId) :
    model.renderedAll bound depth (child :: later) last =
      .chars (lineBreak depth)
        (model.renderedOnto bound depth child (model.renderedAll bound depth later last)) :=
  rfl

/-! ## Levels -/

/-- The elements can all be rendered in so many levels. -/
def Fits (model : Model) (bound : Nat) (ids : List NodeId) : Prop :=
  ∀ id : Nat, id ∈ ids → id < model.size ∧ model.size ≤ bound + id

/-- The elements inside an element need one level less. -/
theorem Fits.children (hmodel : model.WellFormed) (h : model.size ≤ bound + 1 + id) :
    model.Fits bound (model.node id).children := by
  intro child hchild
  obtain ⟨hlt, hsize⟩ := hmodel.lists.lt_of_mem hchild
  exact ⟨hsize, by omega⟩

/-- There are fewer levels below the root than there are elements. -/
theorem Fits.root (hmodel : model.WellFormed) :
    model.Fits (model.size - 1) (model.node Model.root).children :=
  .children hmodel (Nat.le_of_eq (Nat.sub_one_add_one (Nat.ne_of_gt hmodel.pos)).symm)

/-- Each of the elements can be rendered in so many levels. -/
theorem Fits.single (h : model.Fits bound ids) (hid : id ∈ ids) : model.Fits bound [id] := by
  intro other hother
  obtain rfl := List.mem_singleton.1 hother
  exact h other hid

/-- An element needs one level at least. -/
theorem Fits.exists_eq_succ (h : model.Fits bound ids) (hid : id ∈ ids) :
    ∃ bound', bound = bound' + 1 := by
  obtain ⟨hlt, hsize⟩ := h id hid
  exact ⟨bound - 1, by omega⟩

/-! ## Texts -/

/-- A tag is written with its attributes. -/
theorem front_startTag (node : Node) :
    '<' :: node.kind.tag.toList ++
      node.attributes.flatMap (fun (name, value) => renderAttribute name value) =
      node.startTag.front := by
  simp [Node.startTag, Tag.front, List.flatMap_map, Attribute.rendered, Attribute.text,
    Attribute.front, renderAttribute, Quotation.char]

/-- Elements are written on lines of their own if each of them is. -/
theorem text_renderedAll {more : Text} (hlast : last.text = '\n' :: more)
    (h : ∀ child ∈ ids, ∀ {next : Content} {more : Text}, next.text = '\n' :: more →
      indent depth ++ (model.renderedOnto bound depth child next).text =
        model.renderFrom bound depth child ++ more) :
    (model.renderedAll bound depth ids last).text =
      '\n' :: (ids.flatMap (model.renderFrom bound depth) ++ more) := by
  induction ids with
  | nil => exact hlast
  | cons child later ih =>
    obtain ⟨hchild, hlater⟩ := List.forall_mem_cons.1 h
    rw [renderedAll_cons, Content.text, lineBreak, List.cons_append, hchild (ih hlater),
      List.flatMap_cons, List.append_assoc]

/-- A rendered element is written as its markup, up to the line break behind it. -/
theorem text_renderedOnto (hmodel : model.WellFormed) (hid : model.Fits bound [id]) {more : Text}
    (hnext : next.text = '\n' :: more) :
    indent depth ++ (model.renderedOnto bound depth id next).text =
      model.renderFrom bound depth id ++ more := by
  induction bound generalizing depth id next more with
  | zero =>
    obtain ⟨bound', hbound'⟩ := hid.exists_eq_succ List.mem_cons_self
    cases hbound'
  | succ bound ih =>
    have hchildren := Fits.children hmodel (hid id List.mem_cons_self).2
    have hfront := front_startTag (model.node id)
    rw [renderFrom]
    -- Rendering and writing the markup make the same distinction between elements.
    cases htext : (model.node id).text with
    | some text =>
      rw [renderedOnto_of_text htext]
      simp [Content.text, Content.text_ofText, Tag.startText, ← hfront, Node.endTag, EndTag.text,
        hnext]
    | none =>
      by_cases hnil : (model.node id).children = []
      · rw [renderedOnto_of_isEmpty htext hnil]
        simp [Content.text, Tag.emptyText, Tag.closingMark, ← hfront, hnext, hnil]
      · have hinner : (model.renderedAll bound (depth + 1) (model.node id).children
            (.chars (lineBreak depth) .nil)).text =
            '\n' :: ((model.node id).children.flatMap (model.renderFrom bound (depth + 1)) ++
              indent depth) := by
          exact text_renderedAll (List.append_nil _) fun child hchild =>
            ih (hchildren.single hchild)
        rw [renderedOnto_of_ne_nil htext hnil]
        simp [Content.text, Tag.startText, ← hfront, Node.endTag, EndTag.text, hnext, hnil, hinner]

/-- A rendered model is the text of its markup, in front of a line break. -/
theorem render_eq_text (hmodel : model.WellFormed) :
    model.render = model.renderedRoot.text ++ ['\n'] := by
  have hroot : model.Fits model.size [root] :=
    List.forall_mem_singleton.2 ⟨hmodel.pos, Nat.le_add_right ..⟩
  have htext : (model.node root).text = none :=
    hmodel.text?_eq_none (by rw [hmodel.kind_root]; rfl)
  have hwritten : (Content.chars ['\n'] .nil).text = '\n' :: [] := rfl
  have honto : indent 0 ++ (model.renderedOnto model.size 0 root (.chars ['\n'] .nil)).text =
      model.renderFrom model.size 0 root ++ [] := text_renderedOnto hmodel hroot hwritten
  rw [List.append_nil, ← render] at honto
  rw [← honto]
  obtain ⟨bound, hbound⟩ := hroot.exists_eq_succ List.mem_cons_self
  rw [renderedRoot, hbound]
  by_cases hnil : (model.node root).children = []
  · rw [renderedOnto_of_isEmpty htext hnil]
    simp [Content.text, Markup.Root.text, hnil, indent]
  · rw [renderedOnto_of_ne_nil htext hnil]
    simp [Content.text, Markup.Root.text, hnil, indent]

/-! ## Reading -/

/-- An attribute is rendered so that it can be read. -/
theorem wellFormed_rendered {entry : Text × Text} (h : isName entry.1 = true) :
    (Attribute.rendered entry).WellFormed where
  gap_ne_nil := List.cons_ne_nil _ _
  gap := rfl
  name := h
  beforeEquals := rfl
  afterEquals := rfl
  value := all_encodeValue entry.2

theorem Named.wellFormed_startTag (h : model.Named) (id : NodeId) :
    (model.node id).startTag.WellFormed where
  name := NodeKind.isName_tag _
  attributes := by
    intro written hwritten
    obtain ⟨entry, hentry, rfl⟩ := List.mem_map.1 hwritten
    exact wellFormed_rendered (h id entry hentry)
  gap := rfl

theorem wellFormed_endTag (node : Node) : node.endTag.WellFormed :=
  ⟨NodeKind.isName_tag _, rfl⟩

/-- Line breaks and indents are character data. -/
theorem wellFormed_lineBreak (depth : Nat) : (Token.chars (lineBreak depth)).WellFormed := by
  refine ⟨List.cons_ne_nil _ _, ?_⟩
  rw [lineBreak, indent, List.all_cons, List.all_replicate]
  simp

theorem startsWithChars_renderedOnto (hid : model.Fits bound [id]) :
    (model.renderedOnto bound depth id next).startsWithChars = false := by
  obtain ⟨bound, rfl⟩ := hid.exists_eq_succ List.mem_cons_self
  cases htext : (model.node id).text with
  | some text => rw [renderedOnto_of_text htext]; rfl
  | none =>
    by_cases hnil : (model.node id).children = []
    · rw [renderedOnto_of_isEmpty htext hnil]; rfl
    · rw [renderedOnto_of_ne_nil htext hnil]; rfl

theorem wellFormed_renderedAll (hids : model.Fits bound ids) (hlast : last.WellFormed)
    (h : ∀ child ∈ ids, ∀ {next : Content}, next.WellFormed →
      (model.renderedOnto bound depth child next).WellFormed) :
    (model.renderedAll bound depth ids last).WellFormed := by
  induction ids with
  | nil => exact hlast
  | cons child later ih =>
    obtain ⟨hchild, hlater⟩ := List.forall_mem_cons.1 h
    rw [renderedAll_cons]
    have hfirst := hids.single List.mem_cons_self
    have hrest : model.Fits bound later := fun id hid => hids id (List.mem_cons_of_mem _ hid)
    exact ⟨wellFormed_lineBreak depth, startsWithChars_renderedOnto hfirst,
      hchild (ih hrest hlater)⟩

/-- The markup of a rendered element can be read. -/
theorem wellFormed_renderedOnto (hmodel : model.WellFormed) (hnamed : model.Named)
    (hid : model.Fits bound [id]) (hnext : next.WellFormed) :
    (model.renderedOnto bound depth id next).WellFormed := by
  induction bound generalizing depth id next with
  | zero => exact hnext
  | succ bound ih =>
    have hchildren := Fits.children hmodel (hid id List.mem_cons_self).2
    have hstart := hnamed.wellFormed_startTag id
    have hend := wellFormed_endTag (model.node id)
    -- An element carries a text, is empty or has children on lines of their own.
    cases htext : (model.node id).text with
    | some text =>
      rw [renderedOnto_of_text htext]
      exact ⟨hstart, Content.wellFormed_ofText text, hend, hnext⟩
    | none =>
      by_cases hnil : (model.node id).children = []
      · rw [renderedOnto_of_isEmpty htext hnil]
        exact ⟨hstart, hnext⟩
      · rw [renderedOnto_of_ne_nil htext hnil]
        refine ⟨hstart, ?_, hend, hnext⟩
        exact wellFormed_renderedAll hchildren ⟨wellFormed_lineBreak depth, rfl, trivial⟩
          fun child hchild => ih (hchildren.single hchild)

/-- The markup of a rendered model can be read. -/
theorem wellFormed_renderedRoot (hmodel : model.WellFormed) (hnamed : model.Named) :
    model.renderedRoot.WellFormed := by
  have hstart := hnamed.wellFormed_startTag root
  unfold renderedRoot
  dsimp only
  split
  · exact hstart
  · have hchildren := Fits.root hmodel
    refine ⟨hstart, ?_, wellFormed_endTag _⟩
    exact wellFormed_renderedAll hchildren ⟨wellFormed_lineBreak 0, rfl, trivial⟩
      fun child hchild => wellFormed_renderedOnto hmodel hnamed (hchildren.single hchild)

end Model

end Retrace
