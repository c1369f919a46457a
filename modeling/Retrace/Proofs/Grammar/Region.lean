import Retrace.Proofs.Grammar.Spans
import Retrace.Proofs.Text.Run

/-!
# Derivations in terms of parts of a text

A derivation leads from one offset of a text to another. `Grammar.Reads` says the same in terms of
parts of the text: a form reads a region between what lies ahead of it and what lies behind it. A
derivation in several steps is taken apart by cutting its region (`Reads.of_item` and the lemmas
around it).

The tokens that need no definition, and blanks, end where a run of characters ends. In grammars
without other patterns, what is read in a region depends on the region and on the characters next to
it alone, so the same is read where the region stands in another text (`Reads.exists_of_alike`).

## Main definitions

* `Grammar.Reads`: a form reads a region of a text;
* `Grammar.Basic`: no pattern is used.
-/

namespace Retrace

/-- A name goes on from one part of a text into the next. -/
def Text.Joined (front back : Text) : Prop :=
  front.getLast?.any Text.isNameChar = true ∧ back.head?.any Text.isNameChar = true

/-! ## Shapes without patterns -/

namespace Shape

variable {p : Char → Bool} {word rest rest' : Text}

/-- A run ends where characters of another kind follow. -/
theorem run?_append :
    run? p (word ++ rest) = some word.length ↔
      word ≠ [] ∧ word.all p = true ∧ Text.Stops p rest := by
  constructor
  · intro h
    have hrun : (word ++ rest).takeWhile p ≠ [] ∧
        ((word ++ rest).takeWhile p).length = word.length := by
      unfold run? at h
      split at h
      · cases h
      · rename_i kept hne
        exact ⟨hne, Option.some.inj h⟩
    have hcut : (word ++ rest).takeWhile p ++ (word ++ rest).dropWhile p = word ++ rest :=
      List.takeWhile_append_dropWhile
    -- A run of this length is the word itself.
    obtain ⟨hword, hrest⟩ := List.append_inj hcut hrun.2
    rw [hword] at hrun
    refine ⟨hrun.1, ?_, hrest ▸ Text.stops_dropWhile p (word ++ rest)⟩
    rw [← hword]
    exact List.all_takeWhile
  · rintro ⟨hne, hword, hrest⟩
    rw [run?, Text.takeWhile_append hword hrest]
    cases word with
    | nil => exact absurd rfl hne
    | cons c later => rfl

/-- There is no run where a character of another kind stands. -/
theorem run?_eq_none_iff {text : Text} : run? p text = none ↔ Text.Stops p text := by
  cases text with
  | nil => simp [run?, Text.stops_nil]
  | cons c later =>
    rw [Text.stops_cons, run?, List.takeWhile_cons]
    cases p c <;> simp

/-- Blanks are skipped up to the first other character. -/
theorem getD_length?_blanks {gap : Text} :
    (blanks.length? (gap ++ rest)).getD 0 = gap.length ↔
      gap.all Text.isBlank = true ∧ Text.Stops Text.isBlank rest := by
  constructor
  · intro h
    cases hlength : blanks.length? (gap ++ rest) with
    | none =>
      rw [hlength] at h
      obtain rfl : gap = [] := List.length_eq_zero_iff.1 h.symm
      exact ⟨rfl, run?_eq_none_iff.1 hlength⟩
    | some n =>
      rw [hlength] at h
      obtain rfl : n = gap.length := h
      exact (run?_append.1 hlength).2
  · rintro ⟨hgap, hrest⟩
    -- Without blanks there is no run, and nothing is skipped.
    cases gap with
    | nil =>
      have hnone : blanks.length? rest = none := run?_eq_none_iff.2 hrest
      rw [List.nil_append, hnone]
      rfl
    | cons c later =>
      have hsome : blanks.length? (c :: later ++ rest) = some (c :: later).length :=
        run?_append.2 ⟨List.cons_ne_nil c later, hgap, hrest⟩
      rw [hsome]
      rfl

/-- A letter of the English alphabet, a digit or the low line. -/
def isWordChar (c : Char) : Bool :=
  isNameStart c || c.isDigit

/-- A written word is found in front of any text exactly if it stands there. -/
theorem word?_append {found : Text} :
    word? found (word ++ rest) = some word.length ↔ word = found := by
  unfold word?
  constructor
  · intro h
    split at h
    · rename_i hprefix
      obtain ⟨tail, htail⟩ := List.isPrefixOf_iff_prefix.1 hprefix
      exact (List.append_inj htail (Option.some.inj h)).1.symm
    · cases h
  · rintro rfl
    rw [if_pos (List.isPrefixOf_iff_prefix.2 (List.prefix_append _ _))]

/-- A number is a run of zeros, or of digits if there is no zero in front. -/
theorem length?_number_append (hne : word ≠ []) :
    number.length? (word ++ rest) = some word.length ↔
      (word.all (· = '0') = true ∧ Text.Stops (· = '0') rest) ∨
        (word.head?.any (· = '0') = false ∧ word.all Char.isDigit = true ∧
          Text.Stops Char.isDigit rest) := by
  have hhead : run? (· = '0') (word ++ rest) = none ↔ word.head?.any (· = '0') = false := by
    rw [run?_eq_none_iff]
    cases word with
    | nil => exact absurd rfl hne
    | cons c later => simp
  simp only [length?, Option.or_eq_some_iff, run?_append, hhead, ne_eq, hne, not_false_eq_true,
    true_and]

theorem length?_truth_append :
    truth.length? (word ++ rest) = some word.length ↔
      word = "true".toList ∨ word = "false".toList := by
  simp only [length?, Option.or_eq_some_iff, word?_append]
  constructor
  · rintro (h | ⟨-, h⟩)
    · exact Or.inl h
    · exact Or.inr h
  · rintro (h | rfl)
    · exact Or.inl h
    · exact Or.inr ⟨rfl, rfl⟩

theorem length?_name_append (hne : word ≠ []) :
    name.length? (word ++ rest) = some word.length ↔
      word.head?.any isNameStart = true ∧ word.all isWordChar = true ∧
        Text.Stops isWordChar rest := by
  have hhead : (word ++ rest).head? = word.head? := by
    cases word with
    | nil => exact absurd rfl hne
    | cons c later => rfl
  have hrun : run? (fun c => isNameStart c || c.isDigit) (word ++ rest) = some word.length ↔
      word ≠ [] ∧ word.all isWordChar = true ∧ Text.Stops isWordChar rest := run?_append
  simp only [length?, hhead]
  split
  · rename_i hstart
    rw [hrun, hstart]
    simp [hne]
  · rename_i hstart
    simp [hstart]

/-- A token that needs no definition is found in front of other texts as well that go on with the
same character. -/
theorem length?_append_congr {token : Token} (htoken : token ∈ Grammar.builtinTokens)
    (hne : word ≠ []) (hhead : rest'.head? = rest.head?)
    (h : token.shape.length? (word ++ rest) = some word.length) :
    token.shape.length? (word ++ rest') = some word.length := by
  simp only [Grammar.builtinTokens, List.mem_cons, List.not_mem_nil, or_false] at htoken
  rcases htoken with rfl | rfl | rfl
  · rw [length?_name_append hne] at h ⊢
    exact ⟨h.1, h.2.1, h.2.2.congr hhead⟩
  · rw [length?_number_append hne] at h ⊢
    exact h.imp (fun h => ⟨h.1, h.2.congr hhead⟩) fun h => ⟨h.1, h.2.1, h.2.2.congr hhead⟩
  · rw [length?_truth_append] at h ⊢
    exact h

/-- Such a token consists of English letters, digits and low lines. -/
theorem all_isWordChar {token : Token} (htoken : token ∈ Grammar.builtinTokens) (hne : word ≠ [])
    (h : token.shape.length? (word ++ rest) = some word.length) :
    word.all isWordChar = true := by
  have hdigit : ∀ c : Char, c.isDigit = true → isWordChar c = true := by
    intro c hc
    rw [isWordChar, hc, Bool.or_true]
  simp only [Grammar.builtinTokens, List.mem_cons, List.not_mem_nil, or_false] at htoken
  rcases htoken with rfl | rfl | rfl
  · exact ((length?_name_append hne).1 h).2.1
  · rw [List.all_eq_true]
    intro c hc
    apply hdigit
    rcases (length?_number_append hne).1 h with ⟨hall, -⟩ | ⟨-, hall, -⟩
    · obtain rfl : c = '0' := by simpa using List.all_eq_true.1 hall c hc
      rfl
    · exact List.all_eq_true.1 hall c hc
  · rcases length?_truth_append.1 h with rfl | rfl <;> rfl

/-- A letter is a capital letter or a small one. -/
theorem isAlpha_iff {c : Char} : c.isAlpha = true ↔ c.isUpper = true ∨ c.isLower = true :=
  Bool.or_eq_true_iff ..

/-- The characters of words are ASCII characters behind the blanks. -/
theorem toNat_of_isWordChar {c : Char} (h : isWordChar c = true) :
    48 ≤ c.toNat ∧ c.toNat < 128 := by
  have hval : c.val.toNat = c.toNat := rfl
  have hupper (h : c.isUpper = true) : 'A'.val ≤ c.val ∧ c.val ≤ 'Z'.val := of_decide_eq_true h
  have hlower (h : c.isLower = true) : 'a'.val ≤ c.val ∧ c.val ≤ 'z'.val :=
    ⟨of_decide_eq_true (Bool.and_eq_true_iff.1 h).1, of_decide_eq_true (Bool.and_eq_true_iff.1 h).2⟩
  simp only [isWordChar, isNameStart, isAlpha_iff, Char.isDigit, Bool.or_eq_true, Bool.and_eq_true,
    decide_eq_true_eq] at h
  rcases h with ((h | h) | rfl) | h
  · have hrange := hupper h
    simp [UInt32.le_iff_toNat_le] at hrange
    omega
  · have hrange := hlower h
    simp [UInt32.le_iff_toNat_le] at hrange
    omega
  · decide
  · simp [UInt32.le_iff_toNat_le] at h
    omega

/-- No blank is part of a word. -/
theorem isBlank_of_isWordChar {c : Char} (h : isWordChar c = true) : Text.isBlank c = false := by
  obtain ⟨hle, hlt⟩ := toNat_of_isWordChar h
  have hval : c.val.toNat = c.toNat := rfl
  rw [Bool.eq_false_iff]
  intro hblank
  simp only [Text.isBlank, Bool.or_eq_true, Bool.and_eq_true, decide_eq_true_eq, Char.le_def,
    UInt32.le_iff_toNat_le, hval] at hblank
  rcases hblank with (((((((((rfl | h) | rfl) | rfl) | rfl) | h) | rfl) | rfl) | rfl) | rfl) | rfl
  -- Two kinds of blanks are given by a range, all others one by one.
  case inl.inl.inl.inl.inl.inl.inl.inl.inl.inr =>
    simp at h
    omega
  case inl.inl.inl.inl.inl.inr =>
    simp at h
    omega
  all_goals exact absurd h (by decide)

/-- Words may be parts of names. -/
theorem isNameChar_of_isWordChar {c : Char} (h : isWordChar c = true) :
    Text.isNameChar c = true := by
  obtain ⟨-, hlt⟩ := toNat_of_isWordChar h
  rw [Text.isNameChar, Text.isAlphanumeric, if_pos hlt]
  simp only [isWordChar, isNameStart, Char.isAlphanum, Bool.or_eq_true] at h ⊢
  rcases h with (h | h) | h
  · exact Or.inl (Or.inl h)
  · exact Or.inr h
  · exact Or.inl (Or.inr h)

end Shape

namespace Grammar

variable {grammar : Grammar} {front region back : Text} {children : List (Option ParseTree)}

/-- Blanks are skipped, and the only tokens are those that need no definition. -/
structure Basic (grammar : Grammar) : Prop where
  /-- Blanks are skipped. -/
  skip_eq : grammar.skip = .blanks
  /-- The tokens need no definition. -/
  tokens : ∀ token ∈ grammar.tokens, token ∈ builtinTokens

/-- A form reads a region between two other parts of a text, with these items. -/
def Reads (grammar : Grammar) (form : Form) (front region back : Text)
    (children : List (Option ParseTree)) : Prop :=
  grammar.Yields (front ++ (region ++ back)) form (Text.size front) (Text.size (front ++ region))
    children

/-! ## Taking derivations apart -/

/-- Where a word stands is known from the offsets alone. -/
theorem Stands.cut {front' gap word back' : Text}
    (h : grammar.Stands (front ++ (region ++ back)) front' gap word back')
    (hstart : Text.size front = Text.size front')
    (hstop : Text.size (front ++ region) = Text.size (front' ++ (gap ++ word))) :
    front' = front ∧ region = gap ++ word ∧ back' = back := by
  obtain ⟨rfl, hbehind⟩ := Text.eq_of_append_eq_append h.text_eq hstart
  rw [Text.size_append, Text.size_append] at hstop
  rw [← List.append_assoc] at hbehind
  obtain ⟨rfl, rfl⟩ := Text.eq_of_append_eq_append hbehind (Nat.add_left_cancel hstop)
  exact ⟨rfl, rfl, rfl⟩

/-- In front of a terminal there are blanks. -/
theorem Stands.isBlank (hgrammar : grammar.Basic) {text gap word : Text}
    (h : grammar.Stands text front gap word back) : gap.all Text.isBlank = true := by
  have hgap := h.length_gap
  rw [hgrammar.skip_eq, Shape.getD_length?_blanks] at hgap
  exact hgap.1

namespace Reads

/-- A region is empty where nothing is read. -/
private theorem eq_nil_of_size {start : Nat} (hstart : Text.size front = start)
    (hstop : Text.size (front ++ region) = start) : region = [] := by
  rw [← Text.size_eq_zero_iff]
  rw [Text.size_append] at hstop
  omega

/-- A literal is read behind what is skipped. -/
theorem of_literal {word : Text}
    (h : grammar.Reads (.expr (.literal word)) front region back children) :
    ∃ gap, region = gap ++ word ∧ grammar.Stands (front ++ (region ++ back)) front gap word back ∧
      children = [some (.leaf ⟨String.ofList word, word,
        ⟨Text.size (front ++ gap), Text.size (front ++ region)⟩⟩)] := by
  unfold Reads at h
  generalize hstart : Text.size front = start at h
  generalize hstop : Text.size (front ++ region) = stop at h
  generalize htext : front ++ (region ++ back) = text at h
  cases h with
  | @literal front' gap _ back' hstands =>
    subst htext
    obtain ⟨rfl, rfl, rfl⟩ := hstands.cut hstart hstop
    exact ⟨gap, rfl, hstands, rfl⟩

/-- A token is read behind what is skipped. -/
theorem of_token {index : Nat}
    (h : grammar.Reads (.expr (.call (.token index))) front region back children) :
    ∃ token gap word, grammar.tokens[index]? = some token ∧
      token.shape.length? (word ++ back) = some word.length ∧ word ≠ [] ∧ region = gap ++ word ∧
      grammar.Stands (front ++ (region ++ back)) front gap word back ∧
      children = [some (.leaf ⟨token.name, word,
        ⟨Text.size (front ++ gap), Text.size (front ++ region)⟩⟩)] := by
  unfold Reads at h
  generalize hstart : Text.size front = start at h
  generalize hstop : Text.size (front ++ region) = stop at h
  generalize htext : front ++ (region ++ back) = text at h
  cases h with
  | @token _ token front' gap word back' htoken hlength hne hstands =>
    subst htext
    obtain ⟨rfl, rfl, rfl⟩ := hstands.cut hstart hstop
    exact ⟨token, gap, word, htoken, hlength, hne, rfl, hstands, rfl⟩

/-- A rule reads what its body reads. -/
theorem of_rule {index : Nat}
    (h : grammar.Reads (.expr (.call (.rule index))) front region back children) :
    ∃ rule below, grammar.rules[index]? = some rule ∧
      grammar.Reads (.expr rule.body) front region back below ∧
      children = [some (.node (some rule.name) below (coverSpan below (Text.size front)))] := by
  unfold Reads at h
  cases h with
  | @rule _ rule _ _ below hrule hbody => exact ⟨rule, below, hrule, hbody, rfl⟩

theorem of_seq {items : List Production}
    (h : grammar.Reads (.expr (.seq items)) front region back children) :
    grammar.Reads (.items items) front region back children := by
  unfold Reads at h
  cases h with
  | seq hitems => exact hitems

theorem of_either {branches : List Production}
    (h : grammar.Reads (.expr (.either branches)) front region back children) :
    ∃ branch ∈ branches, grammar.Reads (.expr branch) front region back children := by
  unfold Reads at h
  cases h with
  | either hbranch hyields => exact ⟨_, hbranch, hyields⟩

/-- An optional part reads nothing or what it stands for. -/
theorem of_optional {body : Production}
    (h : grammar.Reads (.expr (.optional body)) front region back children) :
    (region = [] ∧ children = [none]) ∨
      ∃ below, grammar.Reads (.expr body) front region back below ∧
        children = [some (groupItems below (Text.size front))] := by
  unfold Reads at h
  generalize hstart : Text.size front = start at h
  generalize hstop : Text.size (front ++ region) = stop at h
  cases h with
  | absent =>
    exact Or.inl ⟨eq_nil_of_size hstart hstop, rfl⟩
  | @present _ _ _ below hbody =>
    refine Or.inr ⟨below, ?_, rfl⟩
    rw [Reads, hstart, hstop]
    exact hbody

theorem of_loop {label : Nat} {body : Production}
    (h : grammar.Reads (.expr (.loop label body)) front region back children) :
    ∃ rounds, grammar.Reads (.rounds body) front region back rounds ∧
      children = [some (.node none rounds (coverSpan rounds (Text.size front)))] := by
  unfold Reads at h
  cases h with
  | @loop _ _ _ _ rounds hrounds => exact ⟨rounds, hrounds, rfl⟩

theorem of_noItem (h : grammar.Reads (.items []) front region back children) :
    region = [] ∧ children = [] := by
  unfold Reads at h
  generalize hstart : Text.size front = start at h
  generalize hstop : Text.size (front ++ region) = stop at h
  cases h with
  | noItem =>
    exact ⟨eq_nil_of_size hstart hstop, rfl⟩

/-- What two forms derive one after the other is read in two parts of the region. -/
theorem cut {form form' : Form} {middle : Nat} {first later : List (Option ParseTree)}
    (h : grammar.Yields (front ++ (region ++ back)) form (Text.size front) middle first)
    (h' : grammar.Yields (front ++ (region ++ back)) form' middle (Text.size (front ++ region))
      later) :
    ∃ ahead behind, region = ahead ++ behind ∧ middle = Text.size (front ++ ahead) ∧
      grammar.Reads form front ahead (behind ++ back) first ∧
      grammar.Reads form' (front ++ ahead) behind back later := by
  have hboundary : (front ++ (region ++ back)).IsBoundary middle :=
    h.isBoundary (Text.isBoundary_size_append ..)
  obtain ⟨ahead, rest, htext, rfl⟩ := hboundary.exists_append h.le
  have hle : Text.size ahead ≤ Text.size region := by
    have hle := h'.le
    rw [Text.size_append, Text.size_append] at hle
    omega
  -- The first part ends inside the region, so the region is cut there.
  obtain ⟨behind, rfl⟩ : ∃ behind, region = ahead ++ behind := by
    rcases List.append_eq_append_iff.1 htext with ⟨behind, rfl, -⟩ | ⟨behind, rfl, -⟩
    · rw [Text.size_append] at hle
      obtain rfl := Text.size_eq_zero_iff.1 (by omega : Text.size behind = 0)
      exact ⟨[], by simp⟩
    · exact ⟨behind, rfl⟩
  refine ⟨ahead, behind, rfl, rfl, ?_, ?_⟩
  · simpa only [Reads, List.append_assoc] using h
  · simpa only [Reads, List.append_assoc] using h'

/-- Items are read one after the other. -/
theorem of_item {first : Production} {items : List Production}
    (h : grammar.Reads (.items (first :: items)) front region back children) :
    ∃ ahead behind here later, region = ahead ++ behind ∧ children = here ++ later ∧
      grammar.Reads (.expr first) front ahead (behind ++ back) here ∧
      grammar.Reads (.items items) (front ++ ahead) behind back later := by
  unfold Reads at h
  cases h with
  | @item _ _ _ middle _ here later hfirst hlater =>
    obtain ⟨ahead, behind, hregion, -, hahead, hbehind⟩ := cut hfirst hlater
    exact ⟨ahead, behind, here, later, hregion, rfl, hahead, hbehind⟩

/-- Iterations are read one after the other. -/
theorem of_round {body : Production}
    (h : grammar.Reads (.rounds body) front region back children) :
    (region = [] ∧ children = []) ∨
      ∃ ahead behind here later, region = ahead ++ behind ∧
        children = some (groupItems here (Text.size front)) :: later ∧
        grammar.Reads (.expr body) front ahead (behind ++ back) here ∧
        grammar.Reads (.rounds body) (front ++ ahead) behind back later := by
  unfold Reads at h
  generalize hstart : Text.size front = start at h
  generalize hstop : Text.size (front ++ region) = stop at h
  cases h with
  | noRound =>
    exact Or.inl ⟨eq_nil_of_size hstart hstop, rfl⟩
  | @round _ _ middle _ here later hfirst hlater =>
    rw [← hstart] at hfirst
    rw [← hstop] at hlater
    obtain ⟨ahead, behind, hregion, -, hahead, hbehind⟩ := cut hfirst hlater
    exact Or.inr ⟨ahead, behind, here, later, hregion, rfl, hahead, hbehind⟩

/-- A literal is read behind blanks, and then the other items. -/
theorem of_literal_item (hgrammar : grammar.Basic) {word : Text} {items : List Production}
    (h : grammar.Reads (.items (.literal word :: items)) front region back children) :
    ∃ gap rest later, region = gap ++ (word ++ rest) ∧ gap.all Text.isBlank = true ∧
      ¬Text.Glued (front ++ gap) word (rest ++ back) ∧
      children = some (.leaf ⟨String.ofList word, word,
        ⟨Text.size (front ++ gap), Text.size (front ++ (gap ++ word))⟩⟩) :: later ∧
      grammar.Reads (.items items) (front ++ (gap ++ word)) rest back later := by
  obtain ⟨ahead, rest, here, later, rfl, rfl, hahead, hrest⟩ := h.of_item
  obtain ⟨gap, rfl, hstands, rfl⟩ := hahead.of_literal
  exact ⟨gap, rest, later, by simp, hstands.isBlank hgrammar, hstands.not_glued, rfl, hrest⟩

/-- A token is read behind blanks, and then the other items. -/
theorem of_token_item (hgrammar : grammar.Basic) {index : Nat} {token : Token}
    (htoken : grammar.tokens[index]? = some token) {items : List Production}
    (h : grammar.Reads (.items (.call (.token index) :: items)) front region back children) :
    ∃ gap word rest later, region = gap ++ (word ++ rest) ∧ gap.all Text.isBlank = true ∧
      word ≠ [] ∧ token.shape.length? (word ++ (rest ++ back)) = some word.length ∧
      ¬Text.Glued (front ++ gap) word (rest ++ back) ∧
      children = some (.leaf ⟨token.name, word,
        ⟨Text.size (front ++ gap), Text.size (front ++ (gap ++ word))⟩⟩) :: later ∧
      grammar.Reads (.items items) (front ++ (gap ++ word)) rest back later := by
  obtain ⟨ahead, rest, here, later, rfl, rfl, hahead, hrest⟩ := h.of_item
  obtain ⟨token', gap, word, htoken', hlength, hne, rfl, hstands, rfl⟩ := hahead.of_token
  obtain rfl := Option.some.inj (htoken.symm.trans htoken')
  exact ⟨gap, word, rest, later, by simp, hstands.isBlank hgrammar, hne, hlength,
    hstands.not_glued, rfl, hrest⟩

/-- What covers a tree and what is read behind it begins where the tree does. -/
theorem start_coverSpan {form : Form} {first : ParseTree} {later : List (Option ParseTree)}
    (h : grammar.Reads form front region back later)
    (hfirst : first.span.start ≤ Text.size front) (offset : Nat) :
    (coverSpan (some first :: later) offset).start = first.span.start := by
  have hstart : (front ++ (region ++ back)).IsBoundary (Text.size front) :=
    Text.isBoundary_iff.2 ⟨front, region ++ back, rfl, rfl⟩
  have hlater : ∀ span ∈ later.filterMap fun child => child.map ParseTree.span,
      first.span.start ≤ span.start := by
    intro span hspan
    obtain ⟨child, hchild, hspan⟩ := List.mem_filterMap.1 hspan
    obtain ⟨tree, rfl, rfl⟩ := Option.map_eq_some_iff.1 hspan
    exact Nat.le_trans hfirst (Yields.within h hstart tree hchild tree (.self tree)).start_le
  exact Span.start_foldl_cover hlater

/-! ## Reading the same in another text -/

/-- A word that stands in one text stands in another as well if the neighbouring characters are
alike. -/
theorem stands_of_alike (hgrammar : grammar.Basic) {gap word front' back' : Text}
    (h : grammar.Stands (front ++ ((gap ++ word) ++ back)) front gap word back)
    (hfront : Text.Joined front' ((gap ++ word) ++ back) ↔
      Text.Joined front ((gap ++ word) ++ back))
    (hback : back'.head? = back.head?) :
    grammar.Stands (front' ++ ((gap ++ word) ++ back')) front' gap word back' where
  text_eq := by rw [List.append_assoc]
  length_gap := by
    have hgap := h.length_gap
    rw [hgrammar.skip_eq, Shape.getD_length?_blanks] at hgap ⊢
    refine ⟨hgap.1, hgap.2.congr ?_⟩
    cases word with
    | nil => exact hback
    | cons c rest => rfl
  not_glued := by
    rintro (hjoined | hjoined)
    · refine h.not_glued (Or.inl ⟨?_, hjoined.2⟩)
      -- Only a word that stands directly behind the text ahead can be joined to it.
      cases gap with
      | nil =>
        rw [List.append_nil] at hjoined ⊢
        have hword : (word ++ back).head? = word.head? := by
          cases word with
          | nil => cases hjoined.2
          | cons c rest => rfl
        have hsame : Text.Joined front ([] ++ word ++ back) := hfront.1 ⟨hjoined.1, by
          rw [List.nil_append, hword]
          exact hjoined.2⟩
        exact hsame.1
      | cons c rest =>
        have hlast (ahead : Text) : (ahead ++ c :: rest).getLast? = (c :: rest).getLast? := by
          rw [List.getLast?_append, List.getLast?_cons, Option.some_or]
        have hleft := hjoined.1
        rw [hlast] at hleft ⊢
        exact hleft
    · exact h.not_glued (Or.inr ⟨hjoined.1, hback ▸ hjoined.2⟩)

theorem joined_append {ahead behind front' : Text}
    (h : Text.Joined front' (ahead ++ behind) ↔ Text.Joined front (ahead ++ behind)) :
    Text.Joined (front' ++ ahead) behind ↔ Text.Joined (front ++ ahead) behind := by
  rcases List.eq_nil_or_concat ahead with rfl | ⟨ahead, c, rfl⟩
  · simpa using h
  · simp [Text.Joined]

theorem head?_append_congr {back' : Text} (h : back'.head? = back.head?) (ahead : Text) :
    (ahead ++ back').head? = (ahead ++ back).head? := by
  cases ahead with
  | nil => exact h
  | cons c rest => rfl

/-- What is read in two parts of a region is read in the region. -/
theorem append {ahead behind : Text} {form form' whole : Form}
    {first later items : List (Option ParseTree)}
    (h : ∀ {text middle stop}, grammar.Yields text form (Text.size front) middle first →
      grammar.Yields text form' middle stop later →
      grammar.Yields text whole (Text.size front) stop items)
    (hahead : grammar.Reads form front ahead (behind ++ back) first)
    (hbehind : grammar.Reads form' (front ++ ahead) behind back later) :
    grammar.Reads whole front (ahead ++ behind) back items := by
  unfold Reads at hahead hbehind ⊢
  simp only [List.append_assoc] at hahead hbehind ⊢
  exact h hahead hbehind

/-- A single item needs no list. -/
theorem of_seqOf {items : List Production}
    (h : grammar.Reads (.expr (.seqOf items)) front region back children) :
    grammar.Reads (.items items) front region back children := by
  match items with
  | [] => exact of_seq h
  | [single] =>
    have hnone : grammar.Reads (.items []) (front ++ region) [] back [] := by
      rw [Reads, List.append_nil]
      exact .noItem _
    change grammar.Reads (.expr single) front region back children at h
    simpa using @append grammar front back region [] _ _ (.items [single]) _ _ _ .item h hnone
  | first :: second :: others => exact of_seq h

/-- What is read in a region of one text is read there in any other text with alike neighbouring
characters. -/
theorem exists_of_alike (hgrammar : grammar.Basic) {form : Form} {front' back' : Text}
    (h : grammar.Reads form front region back children)
    (hfront : Text.Joined front' (region ++ back) ↔ Text.Joined front (region ++ back))
    (hback : back'.head? = back.head?) :
    ∃ children', grammar.Reads form front' region back' children' := by
  -- The induction is on the derivation, so its offsets and its text have to be variables.
  unfold Reads at h
  generalize hstart : Text.size front = start at h
  generalize hstop : Text.size (front ++ region) = stop at h
  generalize htext : front ++ (region ++ back) = text at h
  induction h generalizing front region back front' back' with
  | literal hstands =>
    subst htext
    obtain ⟨rfl, rfl, rfl⟩ := hstands.cut hstart hstop
    exact ⟨_, Yields.literal (stands_of_alike hgrammar hstands hfront hback)⟩
  | token htoken hlength hne hstands =>
    subst htext
    obtain ⟨rfl, rfl, rfl⟩ := hstands.cut hstart hstop
    have hbasic := hgrammar.tokens _ (Array.mem_of_getElem? htoken)
    exact ⟨_, Yields.token htoken (Shape.length?_append_congr hbasic hne hback hlength) hne
      (stands_of_alike hgrammar hstands hfront hback)⟩
  | rule hrule _ ih =>
    obtain ⟨below, hbelow⟩ := ih hfront hback hstart hstop htext
    exact ⟨_, Yields.rule hrule hbelow⟩
  | seq _ ih =>
    obtain ⟨below, hbelow⟩ := ih hfront hback hstart hstop htext
    exact ⟨_, Yields.seq hbelow⟩
  | either hbranch _ ih =>
    obtain ⟨below, hbelow⟩ := ih hfront hback hstart hstop htext
    exact ⟨_, Yields.either hbranch hbelow⟩
  | absent body =>
    obtain rfl := eq_nil_of_size hstart hstop
    refine ⟨[none], ?_⟩
    rw [Reads, List.append_nil]
    exact .absent body _
  | present _ ih =>
    obtain ⟨below, hbelow⟩ := ih hfront hback hstart hstop htext
    exact ⟨_, Yields.present hbelow⟩
  | loop _ ih =>
    obtain ⟨below, hbelow⟩ := ih hfront hback hstart hstop htext
    exact ⟨_, Yields.loop hbelow⟩
  | noItem =>
    obtain rfl := eq_nil_of_size hstart hstop
    refine ⟨[], ?_⟩
    rw [Reads, List.append_nil]
    exact .noItem _
  | item hfirst hlater ihfirst ihlater =>
    subst htext hstart hstop
    obtain ⟨ahead, behind, rfl, rfl, -, -⟩ := cut hfirst hlater
    -- Each of the two parts borders on the other one, which stands in both texts.
    rw [List.append_assoc] at hfront
    obtain ⟨here, hhere⟩ := ihfirst hfront (head?_append_congr hback behind) rfl rfl (by simp)
    obtain ⟨later, hthere⟩ := ihlater (joined_append hfront) hback rfl (by simp) (by simp)
    exact ⟨_, append .item hhere hthere⟩
  | noRound body =>
    obtain rfl := eq_nil_of_size hstart hstop
    refine ⟨[], ?_⟩
    rw [Reads, List.append_nil]
    exact .noRound body _
  | round hfirst hlater ihfirst ihlater =>
    subst htext hstart hstop
    obtain ⟨ahead, behind, rfl, rfl, -, -⟩ := cut hfirst hlater
    rw [List.append_assoc] at hfront
    obtain ⟨here, hhere⟩ := ihfirst hfront (head?_append_congr hback behind) rfl rfl (by simp)
    obtain ⟨later, hthere⟩ := ihlater (joined_append hfront) hback rfl (by simp) (by simp)
    exact ⟨_, append .round hhere hthere⟩

end Reads

end Grammar

end Retrace
