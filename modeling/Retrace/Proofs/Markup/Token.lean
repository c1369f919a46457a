import Retrace.Proofs.Except
import Retrace.Proofs.Text.Run

/-!
# Tokens and their texts

Every piece of markup that can be read is a piece of markup that can be written: the reader of a
kind of pieces succeeds exactly on the texts of the well-formed pieces of that kind. So a document
may be changed piece by piece, and be read again.

## Main definitions

* `Attribute.WellFormed`, `Tag.WellFormed`, `EndTag.WellFormed`, `Token.WellFormed`: pieces whose
  texts are read as these pieces.

## Main results

* `Attribute.read?_eq_some`, `EndTag.read_eq_ok`, `Token.readTag_eq_ok`, `Token.read_eq_ok`: what is
  read by the readers of attributes, tags and tokens.
-/

namespace Retrace.Markup

open Text (Stops stops_cons stops_append takeWhile_append dropWhile_append stops_dropWhile)

variable {text rest : Text}

/-! ## Classes of characters -/

/-- A blank cannot belong to a name. -/
theorem isNamePart_of_isSpace {c : Char} (h : isSpace c = true) : isNamePart c = false := by
  simp only [isSpace, Bool.or_eq_true, decide_eq_true_eq] at h
  rcases h with ((rfl | rfl) | rfl) | rfl <;> decide

theorem isSpace_of_isNameStart {c : Char} (h : isNameStart c = true) : isSpace c = false := by
  cases hc : isSpace c with
  | false => rfl
  | true =>
    -- No blank is a letter, an underscore or a colon.
    simp only [isSpace, Bool.or_eq_true, decide_eq_true_eq] at hc
    rcases hc with ((rfl | rfl) | rfl) | rfl <;> exact absurd h (by decide)

/-- Blanks do not prolong a name. -/
theorem stops_isNamePart_of_isSpace {gap : Text} (h : gap.all isSpace = true) :
    Stops isNamePart gap := by
  cases gap with
  | nil => exact Text.stops_nil _
  | cons c later =>
    rw [List.all_cons, Bool.and_eq_true] at h
    exact stops_cons.2 (isNamePart_of_isSpace h.1)

/-! ## Names -/

/-- A name is neither empty nor does it begin with a blank. -/
theorem exists_of_isName {name : Text} (h : isName name = true) :
    ∃ c later, name = c :: later ∧ isNameStart c = true ∧ later.all isNamePart = true := by
  cases name with
  | nil => cases h
  | cons c later =>
    rw [isName, Bool.and_eq_true] at h
    exact ⟨c, later, rfl, h.1, h.2⟩

theorem stops_isSpace_of_isName {name : Text} (h : isName name = true) :
    Stops isSpace (name ++ rest) := by
  obtain ⟨c, later, rfl, hstart, -⟩ := exists_of_isName h
  exact stops_cons.2 (isSpace_of_isNameStart hstart)

/-- A name is read as far as it goes. -/
theorem name?_eq_some {name : Text} :
    name? text = some (name, rest) ↔
      isName name = true ∧ Stops isNamePart rest ∧ text = name ++ rest := by
  constructor
  · intro h
    cases text with
    | nil => cases h
    | cons c later =>
      rw [name?] at h
      split at h
      · rename_i hstart
        obtain ⟨rfl, rfl⟩ := Prod.mk.inj (Option.some.inj h)
        refine ⟨?_, stops_dropWhile isNamePart later, ?_⟩
        · rw [isName, hstart, List.all_takeWhile, Bool.and_self]
        · rw [List.cons_append, List.takeWhile_append_dropWhile]
      · cases h
  · rintro ⟨hname, hrest, rfl⟩
    obtain ⟨c, later, rfl, hstart, hlater⟩ := exists_of_isName hname
    rw [List.cons_append, name?, if_pos hstart, takeWhile_append hlater hrest,
      dropWhile_append hlater hrest]

/-- Where no name begins, none is read. -/
theorem name?_eq_none (h : Stops isNameStart text) : name? text = none := by
  cases text with
  | nil => rfl
  | cons c later =>
    rw [name?, stops_cons.1 h, if_neg Bool.false_ne_true]

/-! ## Attributes -/

/-- No quotation mark stands in the value that it ends. -/
theorem isValueChar_char (quotation : Quotation) :
    isValueChar quotation quotation.char = false := by
  simp [isValueChar]

theorem isSpace_char (quotation : Quotation) : isSpace quotation.char = false := by
  cases quotation <;> decide

/-- A value is read up to its quotation mark. -/
theorem value?_eq_some {quotation : Quotation} {value : Text} :
    value? quotation text = some (value, rest) ↔
      value.all (isValueChar quotation) = true ∧ text = value ++ quotation.char :: rest := by
  constructor
  · intro h
    -- The value is the longest run that holds no quotation mark.
    have hcut := List.takeWhile_append_dropWhile (p := isValueChar quotation) (l := text)
    unfold value? at h
    split at h
    · rename_i c later hlater
      split at h
      · rename_i hc
        obtain ⟨rfl, rfl⟩ := Prod.mk.inj (Option.some.inj h)
        rw [hlater, hc] at hcut
        exact ⟨List.all_takeWhile, hcut.symm⟩
      · cases h
    · cases h
  · rintro ⟨hvalue, rfl⟩
    have hstops : Stops (isValueChar quotation) (quotation.char :: rest) :=
      stops_cons.2 (isValueChar_char quotation)
    unfold value?
    rw [dropWhile_append hvalue hstops, takeWhile_append hvalue hstops]
    exact if_pos rfl

/-- A value in quotation marks is read up to the second of them. -/
theorem quoted?_eq_some {quotation : Quotation} {value : Text} :
    quoted? text = some (quotation, value, rest) ↔
      value.all (isValueChar quotation) = true ∧
        text = quotation.char :: (value ++ quotation.char :: rest) := by
  constructor
  · intro h
    unfold quoted? at h
    split at h
    · obtain ⟨⟨value', rest'⟩, hvalue, heq⟩ := Option.map_eq_some_iff.1 h
      obtain ⟨hall, rfl⟩ := value?_eq_some.1 hvalue
      cases heq
      exact ⟨hall, rfl⟩
    · obtain ⟨⟨value', rest'⟩, hvalue, heq⟩ := Option.map_eq_some_iff.1 h
      obtain ⟨hall, rfl⟩ := value?_eq_some.1 hvalue
      cases heq
      exact ⟨hall, rfl⟩
    · cases h
  · rintro ⟨hvalue, rfl⟩
    have hread : value? quotation (value ++ quotation.char :: rest) = some (value, rest) :=
      value?_eq_some.2 ⟨hvalue, rfl⟩
    cases quotation with
    | double => exact Option.map_eq_some_iff.2 ⟨(value, rest), hread, rfl⟩
    | single => exact Option.map_eq_some_iff.2 ⟨(value, rest), hread, rfl⟩

namespace Attribute

/-- An attribute that can stand in a tag. -/
structure WellFormed (written : Attribute) : Prop where
  /-- Something separates it from what stands before it. -/
  gap_ne_nil : written.gap ≠ []
  /-- Only blanks separate it. -/
  gap : written.gap.all isSpace = true
  /-- Its name is one. -/
  name : isName written.name = true
  /-- Only blanks stand before the equals sign. -/
  beforeEquals : written.beforeEquals.all isSpace = true
  /-- Only blanks stand behind the equals sign. -/
  afterEquals : written.afterEquals.all isSpace = true
  /-- Its value ends at the quotation mark. -/
  value : written.value.all (isValueChar written.quotation) = true

/-- The attribute from its equals sign on, in front of another text. -/
def back (written : Attribute) (rest : Text) : Text :=
  '=' :: (written.afterEquals ++ written.quotation.char ::
    (written.value ++ written.quotation.char :: rest))

/-- The attribute piece by piece, in the order in which it is read. -/
theorem text_append (written : Attribute) :
    written.text ++ rest =
      written.gap ++ (written.name ++ (written.beforeEquals ++ written.back rest)) := by
  simp [Attribute.text, front, back]

theorem WellFormed.read? {written : Attribute} (h : written.WellFormed) :
    read? (written.text ++ rest) = some (written, rest) := by
  -- Each of the runs ends where the next one begins.
  have hgap : written.gap.isEmpty = false := List.isEmpty_eq_false_iff.2 h.gap_ne_nil
  have hname : Stops isSpace (written.name ++ (written.beforeEquals ++ written.back rest)) :=
    stops_isSpace_of_isName h.name
  have hstops : Stops isNamePart (written.beforeEquals ++ written.back rest) :=
    stops_append (stops_isNamePart_of_isSpace h.beforeEquals) (stops_cons.2 rfl)
  have hequals : Stops isSpace (written.back rest) := stops_cons.2 rfl
  have hquotation : Stops isSpace (written.quotation.char ::
      (written.value ++ written.quotation.char :: rest)) := stops_cons.2 (isSpace_char _)
  rw [text_append, Attribute.read?]
  dsimp only
  rw [takeWhile_append h.gap hname, dropWhile_append h.gap hname, hgap,
    if_neg Bool.false_ne_true, name?_eq_some.2 ⟨h.name, hstops, rfl⟩]
  dsimp only
  rw [dropWhile_append h.beforeEquals hequals, takeWhile_append h.beforeEquals hequals]
  simp only [back]
  rw [dropWhile_append h.afterEquals hquotation, quoted?_eq_some.2 ⟨h.value, rfl⟩,
    takeWhile_append h.afterEquals hquotation]

/-- The attributes that can be read are the well-formed ones. -/
theorem read?_eq_some {written : Attribute} :
    read? text = some (written, rest) ↔ written.WellFormed ∧ text = written.text ++ rest := by
  constructor
  · intro h
    unfold Attribute.read? at h
    dsimp only at h
    split at h
    · cases h
    · rename_i hgap
      split at h
      · cases h
      · rename_i name behind hname
        obtain ⟨hname, -, hbehind⟩ := name?_eq_some.1 hname
        split at h
        · rename_i later hequals
          split at h
          · rename_i quotation value last hquoted
            obtain ⟨hvalue, hlater⟩ := quoted?_eq_some.1 hquoted
            obtain ⟨rfl, rfl⟩ := Prod.mk.inj (Option.some.inj h)
            refine ⟨⟨fun hnil => hgap (List.isEmpty_iff.2 hnil), List.all_takeWhile, hname,
              List.all_takeWhile, List.all_takeWhile, hvalue⟩, ?_⟩
            -- Put together again what the runs of blanks have cut.
            rw [text_append, back, ← hlater, List.takeWhile_append_dropWhile, ← hequals,
              List.takeWhile_append_dropWhile, ← hbehind, List.takeWhile_append_dropWhile]
          · cases h
        · cases h
  · rintro ⟨hwritten, rfl⟩
    exact hwritten.read?

/-- No attribute is read where only blanks stand before something that begins no name. -/
theorem read?_eq_none {gap : Text} {c : Char} (hgap : gap.all isSpace = true)
    (hspace : isSpace c = false) (hc : isNameStart c = false) :
    read? (gap ++ c :: rest) = none := by
  have hstops : Stops isSpace (c :: rest) := stops_cons.2 hspace
  unfold Attribute.read?
  dsimp only
  rw [takeWhile_append hgap hstops, dropWhile_append hgap hstops,
    name?_eq_none (stops_cons.2 hc)]
  split <;> rfl

/-- An attribute takes some of the text. -/
theorem WellFormed.length_pos {written : Attribute} (h : written.WellFormed) :
    0 < written.text.length := by
  have hgap := List.length_pos_iff.2 h.gap_ne_nil
  simp only [Attribute.text, front, List.length_append]
  omega

/-- Attributes that are read are well-formed, and the text is what they leave of it. -/
theorem of_readAll {bound : Nat} {attributes : List Attribute}
    (h : readAll bound text = (attributes, rest)) :
    (∀ written ∈ attributes, written.WellFormed) ∧
      text = attributes.flatMap Attribute.text ++ rest := by
  induction bound generalizing text attributes with
  | zero =>
    obtain ⟨rfl, rfl⟩ := Prod.mk.inj h
    exact ⟨by simp, rfl⟩
  | succ bound ih =>
    unfold readAll at h
    split at h
    · rename_i first behind hread
      obtain ⟨hfirst, rfl⟩ := read?_eq_some.1 hread
      obtain ⟨rfl, hrest⟩ := Prod.mk.inj h
      obtain ⟨hlater, hbehind⟩ := ih (Prod.ext rfl hrest)
      refine ⟨List.forall_mem_cons.2 ⟨hfirst, hlater⟩, ?_⟩
      rw [List.flatMap_cons, List.append_assoc, ← hbehind]
    · obtain ⟨rfl, rfl⟩ := Prod.mk.inj h
      exact ⟨by simp, rfl⟩

/-- All attributes are read if nothing behind them looks like another one. -/
theorem readAll_append {bound : Nat} {attributes : List Attribute}
    (hattributes : ∀ written ∈ attributes, written.WellFormed) (hrest : read? rest = none)
    (hbound : attributes.length ≤ bound) :
    readAll bound (attributes.flatMap Attribute.text ++ rest) = (attributes, rest) := by
  induction attributes generalizing bound with
  | nil =>
    -- There is nothing behind the attributes, however many might still be read.
    cases bound with
    | zero => rfl
    | succ bound =>
      rw [List.flatMap_nil, List.nil_append, readAll, hrest]
  | cons first later ih =>
    obtain ⟨hfirst, hlater⟩ := List.forall_mem_cons.1 hattributes
    cases bound with
    | zero => exact absurd hbound (Nat.not_succ_le_zero _)
    | succ bound =>
      rw [List.flatMap_cons, List.append_assoc, readAll, hfirst.read?]
      dsimp only
      rw [ih hlater (Nat.le_of_succ_le_succ hbound)]

/-- There are no more attributes than characters. -/
theorem length_le_length_flatMap {attributes : List Attribute}
    (h : ∀ written ∈ attributes, written.WellFormed) :
    attributes.length ≤ (attributes.flatMap Attribute.text).length := by
  induction attributes with
  | nil => exact Nat.le_refl 0
  | cons first later ih =>
    obtain ⟨hfirst, hlater⟩ := List.forall_mem_cons.1 h
    have hpos := hfirst.length_pos
    have hle := ih hlater
    rw [List.length_cons, List.flatMap_cons, List.length_append]
    omega

end Attribute

/-! ## Tags -/

/-- A tag that can be read. -/
structure Tag.WellFormed (tag : Tag) : Prop where
  /-- Its name is one. -/
  name : isName tag.name = true
  /-- Its attributes can be read. -/
  attributes : ∀ written ∈ tag.attributes, written.WellFormed
  /-- Only blanks stand before its end. -/
  gap : tag.gap.all isSpace = true

/-- An end tag that can be read. -/
structure EndTag.WellFormed (tag : EndTag) : Prop where
  /-- Its name is one. -/
  name : isName tag.name = true
  /-- Only blanks stand before its end. -/
  gap : tag.gap.all isSpace = true

namespace Tag

/-- A tag that is read is well-formed, and the text is what it leaves of it. -/
theorem of_read? {tag : Tag} (h : read? text = some (tag, rest)) :
    tag.WellFormed ∧ '<' :: text = tag.front ++ rest := by
  unfold Tag.read? at h
  split at h
  · cases h
  · rename_i name behind hread
    obtain ⟨hname, -, rfl⟩ := name?_eq_some.1 hread
    obtain ⟨hattributes, hbehind⟩ := Attribute.of_readAll (Prod.ext rfl rfl :
      Attribute.readAll behind.length behind = (_, _))
    obtain ⟨rfl, rfl⟩ := Prod.mk.inj (Option.some.inj h)
    refine ⟨⟨hname, hattributes, List.all_takeWhile⟩, ?_⟩
    rw [front, List.append_assoc, List.takeWhile_append_dropWhile, List.cons_append,
      List.cons_append, List.append_assoc, ← hbehind]

/-- Attributes do not prolong a name. -/
theorem stops_flatMap {attributes : List Attribute}
    (hattributes : ∀ written ∈ attributes, written.WellFormed) (hrest : Stops isNamePart rest) :
    Stops isNamePart (attributes.flatMap Attribute.text ++ rest) := by
  cases attributes with
  | nil => exact hrest
  | cons first later =>
    have hfirst := hattributes first (List.mem_cons_self ..)
    rw [List.flatMap_cons, List.append_assoc, Attribute.text_append]
    cases hgap : first.gap with
    | nil => exact absurd hgap hfirst.gap_ne_nil
    | cons c blanks =>
      -- An attribute begins with a blank, which is no part of a name.
      have hc := hfirst.gap
      rw [hgap, List.all_cons, Bool.and_eq_true] at hc
      exact stops_cons.2 (isNamePart_of_isSpace hc.1)

/-- A tag is read up to its end, whichever of the two ends it has. -/
theorem WellFormed.read? {tag : Tag} (h : tag.WellFormed) {c : Char}
    (htext : '<' :: text = tag.front ++ c :: rest) (hspace : isSpace c = false)
    (hc : isNamePart c = false) (hstart : isNameStart c = false) :
    read? text = some (tag, c :: rest) := by
  have hend : Stops isSpace (c :: rest) := stops_cons.2 hspace
  have hgap : Stops isNamePart (tag.gap ++ c :: rest) :=
    stops_append (stops_isNamePart_of_isSpace h.gap) (stops_cons.2 hc)
  have hstops := stops_flatMap h.attributes hgap
  have hnone : Attribute.read? (tag.gap ++ c :: rest) = none :=
    Attribute.read?_eq_none h.gap hspace hstart
  have hlength : tag.attributes.length ≤
      (tag.attributes.flatMap Attribute.text ++ (tag.gap ++ c :: rest)).length := by
    rw [List.length_append]
    exact Nat.le_trans (Attribute.length_le_length_flatMap h.attributes) (Nat.le_add_right ..)
  simp only [front, List.cons_append, List.append_assoc, List.cons.injEq, true_and] at htext
  rw [Tag.read?, name?_eq_some.2 ⟨h.name, hstops, htext⟩]
  dsimp only
  rw [Attribute.readAll_append h.attributes hnone hlength]
  dsimp only
  rw [takeWhile_append h.gap hend, dropWhile_append h.gap hend]

/-- A tag begins with an opening bracket and a name. -/
theorem WellFormed.exists_front {tag : Tag} (h : tag.WellFormed) :
    ∃ c later, isNameStart c = true ∧ tag.front = '<' :: c :: later := by
  obtain ⟨c, later, hname, hstart, -⟩ := exists_of_isName h.name
  refine ⟨c, later ++ tag.attributes.flatMap Attribute.text ++ tag.gap, hstart, ?_⟩
  rw [front, hname]
  rfl

end Tag

/-- The end tags that can be read are the well-formed ones. -/
theorem EndTag.read_eq_ok {tag : EndTag} :
    EndTag.read text = .ok (tag, rest) ↔
      tag.WellFormed ∧ '<' :: '/' :: text = tag.text ++ rest := by
  constructor
  · intro h
    unfold EndTag.read at h
    split at h
    · cases h
    · rename_i name behind hread
      obtain ⟨hname, -, rfl⟩ := name?_eq_some.1 hread
      split at h
      · rename_i later hlater
        obtain ⟨rfl, rfl⟩ := Prod.mk.inj (Except.ok.inj h)
        refine ⟨⟨hname, List.all_takeWhile⟩, ?_⟩
        have hcut := List.takeWhile_append_dropWhile (p := isSpace) (l := behind)
        rw [hlater] at hcut
        simp [EndTag.text, hcut]
      · cases h
  · rintro ⟨htag, htext⟩
    -- The blanks stop at the bracket, and the name stops at the blanks or at the bracket.
    have hend : Stops isSpace ('>' :: rest) := stops_cons.2 rfl
    have hstops : Stops isNamePart (tag.gap ++ '>' :: rest) :=
      stops_append (stops_isNamePart_of_isSpace htag.gap) (stops_cons.2 rfl)
    have hname : text = tag.name ++ (tag.gap ++ '>' :: rest) := by
      simpa [EndTag.text] using htext
    rw [EndTag.read, name?_eq_some.2 ⟨htag.name, hstops, hname⟩]
    dsimp only
    rw [dropWhile_append htag.gap hend, takeWhile_append htag.gap hend]
    rfl

/-! ## Tokens -/

namespace Token

/-- A token that can be read. -/
def WellFormed : Token → Prop
  | chars raw => raw ≠ [] ∧ raw.all (· ≠ '<') = true
  | comment body => Text.IsBefore commentEnd body
  | empty tag => tag.WellFormed
  | start tag => tag.WellFormed
  | stop tag => tag.WellFormed

/-- Character data goes on up to the next tag or comment; the other tokens know their ends. -/
def Ends : Token → (rest : Text) → Prop
  | chars _, rest => Stops (· ≠ '<') rest
  | _, _ => True

/-- The tags of elements that can be read are the well-formed ones. -/
theorem readTag_eq_ok {token : Token} :
    readTag text = .ok (token, rest) ↔
      (∃ tag, token = .start tag ∨ token = .empty tag) ∧ token.WellFormed ∧
        '<' :: text = token.text ++ rest := by
  constructor
  · intro h
    unfold readTag at h
    split at h
    · cases h
    · rename_i tag later htag
      obtain ⟨htag, htext⟩ := Tag.of_read? htag
      obtain ⟨rfl, rfl⟩ := Prod.mk.inj (Except.ok.inj h)
      refine ⟨⟨tag, Or.inl rfl⟩, htag, ?_⟩
      rw [htext, Token.text, Tag.startText, List.append_assoc, List.singleton_append]
    · rename_i tag later htag
      obtain ⟨htag, htext⟩ := Tag.of_read? htag
      obtain ⟨rfl, rfl⟩ := Prod.mk.inj (Except.ok.inj h)
      refine ⟨⟨tag, Or.inr rfl⟩, htag, ?_⟩
      rw [htext, Token.text, Tag.emptyText, Tag.closingMark, List.append_assoc]
      rfl
    · cases h
  · rintro ⟨⟨tag, rfl | rfl⟩, htag, htext⟩
    · rw [Token.text, Tag.startText, List.append_assoc, List.singleton_append] at htext
      rw [readTag, Tag.WellFormed.read? htag htext rfl rfl rfl]
      rfl
    · rw [Token.text, Tag.emptyText, Tag.closingMark, List.append_assoc] at htext
      rw [readTag, Tag.WellFormed.read? htag htext rfl rfl rfl]
      rfl

/-- Behind an opening bracket, what begins like a name is read as a tag. -/
theorem read_of_isNameStart {c : Char} (h : isNameStart c = true) :
    read ('<' :: c :: text) = readTag (c :: text) := by
  have hslash : c ≠ '/' := by rintro rfl; exact absurd h (by decide)
  have hmark : c ≠ '!' := by rintro rfl; exact absurd h (by decide)
  unfold read
  split <;> simp_all

/-- What does not begin with an opening bracket is read as character data. -/
theorem read_of_ne {c : Char} (h : c ≠ '<') :
    read (c :: text) =
      .ok (.chars ((c :: text).takeWhile (· ≠ '<')), (c :: text).dropWhile (· ≠ '<')) := by
  unfold read
  split <;> simp_all

/-- What is read as a token is the text of a well-formed one, up to the end of it. -/
theorem of_read {token : Token} (h : read text = .ok (token, rest)) :
    token.WellFormed ∧ text = token.text ++ rest ∧ token.Ends rest := by
  unfold read at h
  split at h
  · cases h
  · obtain ⟨⟨tag, later⟩, hread, heq⟩ := Except.map_eq_ok.1 h
    obtain ⟨htag, htext⟩ := EndTag.read_eq_ok.1 hread
    cases heq
    exact ⟨htag, htext, trivial⟩
  · split at h
    · rename_i body later hcut
      -- A comment goes on up to the first mark that ends one.
      obtain ⟨hbody, hrest⟩ := Text.cut?_eq_some.1 hcut
      obtain ⟨rfl, rfl⟩ := Prod.mk.inj (Except.ok.inj h)
      refine ⟨hbody, ?_, trivial⟩
      simp [Token.text, commentText, hrest]
    · cases h
  · obtain ⟨⟨tag, rfl | rfl⟩, htag, htext⟩ := readTag_eq_ok.1 h
    · exact ⟨htag, htext, trivial⟩
    · exact ⟨htag, htext, trivial⟩
  · rename_i hnil _ _ htag
    obtain ⟨rfl, rfl⟩ := Prod.mk.inj (Except.ok.inj h)
    refine ⟨⟨?_, List.all_takeWhile⟩, List.takeWhile_append_dropWhile.symm,
      stops_dropWhile _ _⟩
    -- The first character is taken, because it is not an opening bracket.
    cases text with
    | nil => exact absurd rfl hnil
    | cons c later =>
      have hc : c ≠ '<' := fun heq => htag later (by rw [heq])
      rw [List.takeWhile_cons, if_pos (decide_eq_true hc)]
      exact List.cons_ne_nil _ _

/-- A well-formed token is read up to its end. -/
theorem WellFormed.read {token : Token} (htoken : token.WellFormed) (hends : token.Ends rest) :
    read (token.text ++ rest) = .ok (token, rest) := by
  -- The first characters tell what kind of token is read, and the kind where it ends.
  cases token with
  | chars raw =>
    obtain ⟨hne, hall⟩ := htoken
    cases raw with
    | nil => exact absurd rfl hne
    | cons c later =>
      have hc : c ≠ '<' := by
        rw [List.all_cons, Bool.and_eq_true] at hall
        exact of_decide_eq_true hall.1
      rw [Token.text, List.cons_append, read_of_ne hc, ← List.cons_append,
        takeWhile_append hall hends, dropWhile_append hall hends]
  | comment body =>
    have hcut : Text.cut? commentEnd (body ++ (commentEnd ++ rest)) = some (body, rest) :=
      Text.cut?_eq_some.2 ⟨htoken, rfl⟩
    rw [Token.text, commentText]
    simp only [List.cons_append, List.append_assoc]
    rw [Token.read, hcut]
  | empty tag =>
    obtain ⟨c, later, hstart, hfront⟩ := Tag.WellFormed.exists_front htoken
    have htext : (Token.empty tag).text ++ rest =
        '<' :: c :: (later ++ (Tag.closingMark ++ rest)) := by
      simp [Token.text, Tag.emptyText, hfront]
    rw [htext, read_of_isNameStart hstart]
    exact readTag_eq_ok.2 ⟨⟨tag, Or.inr rfl⟩, htoken, htext.symm⟩
  | start tag =>
    obtain ⟨c, later, hstart, hfront⟩ := Tag.WellFormed.exists_front htoken
    have htext : (Token.start tag).text ++ rest = '<' :: c :: (later ++ '>' :: rest) := by
      simp [Token.text, Tag.startText, hfront]
    rw [htext, read_of_isNameStart hstart]
    exact readTag_eq_ok.2 ⟨⟨tag, Or.inl rfl⟩, htoken, htext.symm⟩
  | stop tag =>
    have htext : (Token.stop tag).text ++ rest =
        '<' :: '/' :: (tag.name ++ (tag.gap ++ '>' :: rest)) := by
      simp [Token.text, EndTag.text]
    rw [htext, Token.read, EndTag.read_eq_ok.2 ⟨htoken, htext.symm⟩]
    rfl

/-- The tokens that can be read are the well-formed ones, each up to its end. -/
theorem read_eq_ok {token : Token} :
    read text = .ok (token, rest) ↔
      token.WellFormed ∧ text = token.text ++ rest ∧ token.Ends rest := by
  constructor
  · exact of_read
  · rintro ⟨htoken, rfl, hends⟩
    exact htoken.read hends

end Token

end Retrace.Markup
