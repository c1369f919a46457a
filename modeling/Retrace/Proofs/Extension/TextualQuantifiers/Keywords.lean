import Retrace.Proofs.Extension.TextualQuantifiers
import Retrace.Proofs.Grammar.Sweep

/-!
# Texts without keywords

A keyword is a phrase: blanks and capital letters, the last of which is none with which an operator
begins. Every operator ends with a mark that belongs to no phrase, so no phrase reaches into an
operator or beyond it (`IsBarrier.not_isPhrase`). A phrase between two operators has been there
before they were put in, and the characters next to it are alike, because keywords are no parts of
longer names. So a text in which all keywords were replaced stays without keywords when a character
or an operator is put ahead of it (`IsCleared.skip`, `IsCleared.found`).

## Main definitions

* `IsPhrase`, `IsBarrier`: what a keyword looks like, and what it does not reach into;
* `IsSpelled`: the words of a keyword, each of them a whole word;
* `IsWritten`: a keyword with what stands around it;
* `IsCleared`: a text in which the keywords were replaced.
-/

namespace Retrace.TextualQuantifiers

open Grammar

/-! ## Phrases and barriers -/

/-- A blank or a capital letter. -/
def isInner (c : Char) : Bool :=
  Text.isBlank c || c.isUpper

/-- A capital letter with which no operator begins. -/
def isFinal (c : Char) : Bool :=
  c.isUpper && c ≠ 'A' && c ≠ 'E'

/-- A text of blanks and capital letters that ends like a keyword. -/
structure IsPhrase (region : Text) : Prop where
  /-- There are blanks and capital letters. -/
  all_inner : region.all isInner = true
  /-- No operator begins with the last letter. -/
  last_final : region.getLast?.any isFinal = true

theorem isWordChar_of_isUpper {c : Char} (h : c.isUpper = true) : Shape.isWordChar c = true := by
  simp [Shape.isWordChar, Shape.isNameStart, Shape.isAlpha_iff, h]

theorem isNameChar_of_isUpper {c : Char} (h : c.isUpper = true) : Text.isNameChar c = true :=
  Shape.isNameChar_of_isWordChar (isWordChar_of_isUpper h)

theorem isBlank_of_isUpper {c : Char} (h : c.isUpper = true) : Text.isBlank c = false :=
  Shape.isBlank_of_isWordChar (isWordChar_of_isUpper h)

namespace IsPhrase

variable {region : Text} {c : Char}

theorem ne_nil (h : IsPhrase region) : region ≠ [] := by
  rintro rfl
  cases h.last_final

theorem of_cons (h : IsPhrase (c :: region)) (hne : region ≠ []) : IsPhrase region where
  all_inner := by
    have hall := h.all_inner
    rw [List.all_cons, Bool.and_eq_true] at hall
    exact hall.2
  last_final := by
    have hlast := h.last_final
    rwa [List.getLast?_cons_of_ne_nil hne] at hlast

end IsPhrase

/-- A text that no phrase begins with and that no phrase goes beyond. -/
structure IsBarrier (text : Text) : Prop where
  /-- No phrase ends inside. -/
  all_not_final : text.all (fun c => !isFinal c) = true
  /-- The last character belongs to no phrase and to no name. -/
  last_mark : text.getLast?.any (fun c => !isInner c && !Text.isNameChar c) = true

namespace IsBarrier

variable {text region rest tail : Text} {c : Char}

theorem of_cons (h : IsBarrier (c :: text)) (hne : text ≠ []) : IsBarrier text where
  all_not_final := by
    have hall := h.all_not_final
    rw [List.all_cons, Bool.and_eq_true] at hall
    exact hall.2
  last_mark := by
    have hlast := h.last_mark
    rwa [List.getLast?_cons_of_ne_nil hne] at hlast

/-- No phrase stands where a barrier begins. -/
theorem not_isPhrase (h : IsBarrier text) (hcut : text ++ tail = region ++ rest) :
    ¬IsPhrase region := by
  intro hphrase
  rcases List.append_eq_append_iff.1 hcut with ⟨behind, rfl, -⟩ | ⟨behind, rfl, -⟩
  · -- The phrase would contain the mark at the end.
    obtain ⟨mark, hmark, hkind⟩ := (Option.any_eq_true ..).1 h.last_mark
    have hinner : isInner mark = true :=
      List.all_eq_true.1 hphrase.all_inner mark (by simp [List.mem_of_getLast? hmark])
    simp [hinner] at hkind
  · obtain ⟨last, hlast, hfinal⟩ := (Option.any_eq_true ..).1 hphrase.last_final
    have hnot := List.all_eq_true.1 h.all_not_final last (by simp [List.mem_of_getLast? hlast])
    simp [hfinal] at hnot

end IsBarrier

/-- The operators are barriers, also behind blanks. -/
theorem isBarrier_operator {keyword : Keyword} (h : keyword ∈ keywords) {gap : Text}
    (hgap : gap.all Text.isBlank = true) : IsBarrier (gap ++ keyword.operator.toList) := by
  have hkeywords : ∀ keyword ∈ keywords,
      keyword.operator.toList.all (fun c => !isFinal c) = true ∧
        keyword.operator.toList.getLast?.any (fun c => !isInner c && !Text.isNameChar c) =
          true := by
    decide +kernel
  obtain ⟨hfinal, hmark⟩ := hkeywords keyword h
  -- Blanks are no capital letters, so only the characters of the operator matter.
  refine ⟨?_, ?_⟩
  · rw [List.all_append, hfinal, Bool.and_true, List.all_eq_true]
    intro c hc
    have hblank := List.all_eq_true.1 hgap c hc
    cases hupper : isFinal c with
    | false => rfl
    | true =>
      simp only [isFinal, Bool.and_eq_true] at hupper
      rw [isBlank_of_isUpper hupper.1.1] at hblank
      cases hblank
  · have hne : keyword.operator.toList ≠ [] := by
      rintro hnil
      rw [hnil] at hmark
      cases hmark
    rwa [List.getLast?_append_of_ne_nil _ hne]

/-! ## How keywords are written -/

/-- What stands between two parts of a text is a whole word: no name goes on into it or beyond
it. -/
structure IsWhole (front back : Text) : Prop where
  /-- No name goes on in the word. -/
  front_open : front.getLast?.any Text.isNameChar = false
  /-- The word does not go on as a name. -/
  back_open : back.head?.any Text.isNameChar = false

/-- Between two parts of a text stands a word, or two with blanks between them, and each of the
words is a whole one. -/
inductive IsSpelled : (words : List Text) → (front body back : Text) → Prop
  | single {word front back : Text} : IsWhole front back → IsSpelled [word] front word back
  | pair {word word' gap front back : Text} : gap ≠ [] → gap.all Text.isBlank = true →
      IsWhole front (gap ++ (word' ++ back)) → IsWhole (front ++ (word ++ gap)) back →
      IsSpelled [word, word'] front (word ++ (gap ++ word')) back

/-- The keyword `body` stands behind the blanks `gap`, and it is no part of a longer name. -/
structure IsWritten (front gap body back : Text) : Prop where
  /-- There are blanks ahead. -/
  gap_blank : gap.all Text.isBlank = true
  /-- The keyword is a phrase. -/
  phrase : IsPhrase body
  /-- No name goes on in the keyword. -/
  front_open : (front ++ gap).getLast?.any Text.isNameChar = false
  /-- The keyword does not go on as a name. -/
  back_open : back.head?.any Text.isNameChar = false

/-- The rule for keywords. -/
theorem rules_grammar : grammar.rules[0]? = some ⟨"keyword", .either (keywords.map fun keyword =>
    .seqOf (keyword.words.map fun word => .literal word.toList))⟩ := by
  cbv

theorem basic_grammar : grammar.Basic where
  skip_eq := by cbv
  tokens token htoken := by
    have htokens : grammar.tokens = Grammar.builtinTokens.toArray := by cbv
    simpa [htokens] using htoken

/-- A word of a keyword: capital letters that end like a keyword. -/
structure IsCapitals (word : Text) : Prop where
  /-- All letters are capital. -/
  all_upper : word.all Char.isUpper = true
  /-- No operator begins with the last letter. -/
  last_final : word.getLast?.any isFinal = true

namespace IsCapitals

variable {word : Text}

theorem isPhrase (h : IsCapitals word) : IsPhrase word where
  all_inner := List.all_eq_true.2 fun c hc => by
    rw [isInner, List.all_eq_true.1 h.all_upper c hc, Bool.or_true]
  last_final := h.last_final

theorem head_name (h : IsCapitals word) : word.head?.any Text.isNameChar = true := by
  cases word with
  | nil => cases h.last_final
  | cons c later =>
    exact isNameChar_of_isUpper (List.all_eq_true.1 h.all_upper c List.mem_cons_self)

/-- Blanks end where such a word begins. -/
theorem stops_blank (h : IsCapitals word) (rest : Text) :
    Text.Stops Text.isBlank (word ++ rest) := by
  cases word with
  | nil => cases h.last_final
  | cons c later =>
    exact Text.stops_cons.2
      (isBlank_of_isUpper (List.all_eq_true.1 h.all_upper c List.mem_cons_self))

theorem last_name (h : IsCapitals word) : word.getLast?.any Text.isNameChar = true := by
  obtain ⟨last, hlast, hfinal⟩ := (Option.any_eq_true ..).1 h.last_final
  rw [hlast]
  exact isNameChar_of_isUpper (List.all_eq_true.1 h.all_upper last (List.mem_of_getLast? hlast))

/-- Such a word is not glued to what stands around it exactly if it is a whole word. -/
theorem not_glued_iff (h : IsCapitals word) {front back : Text} :
    ¬Text.Glued front word back ↔ IsWhole front back := by
  constructor
  · intro hglued
    exact ⟨Bool.eq_false_iff.2 fun hfront => hglued (Or.inl ⟨hfront, h.head_name⟩),
      Bool.eq_false_iff.2 fun hback => hglued (Or.inr ⟨h.last_name, hback⟩)⟩
  · rintro ⟨hfront, hback⟩ (⟨hname, -⟩ | ⟨-, hname⟩)
    · rw [hfront] at hname
      cases hname
    · rw [hback] at hname
      cases hname

end IsCapitals

/-- A keyword has one word or two. -/
theorem words_of_mem {keyword : Keyword} (h : keyword ∈ keywords) :
    (∃ word, keyword.words = [word]) ∨ ∃ word word', keyword.words = [word, word'] := by
  have hlength : ∀ keyword ∈ keywords, keyword.words.length = 1 ∨ keyword.words.length = 2 := by
    decide
  rcases hlength keyword h with hone | htwo
  · exact Or.inl (List.length_eq_one_iff.1 hone)
  · exact Or.inr (List.length_eq_two.1 htwo)

/-- All of its words are in capital letters. -/
theorem isCapitals_of_mem {keyword : Keyword} (h : keyword ∈ keywords) :
    ∀ word ∈ keyword.words.map String.toList, IsCapitals word := by
  have hwords : ∀ keyword ∈ keywords, ∀ word ∈ keyword.words.map String.toList,
      word.all Char.isUpper = true ∧ word.getLast?.any isFinal = true := by
    decide
  exact fun word hword => ⟨(hwords keyword h word hword).1, (hwords keyword h word hword).2⟩

/-- Words that are spelled are written, behind any blanks. -/
theorem IsSpelled.isWritten {words : List Text} {front gap body back : Text}
    (h : IsSpelled words (front ++ gap) body back) (hwords : ∀ word ∈ words, IsCapitals word)
    (hgap : gap.all Text.isBlank = true) : IsWritten front gap body back := by
  cases h with
  | single hwhole =>
    exact ⟨hgap, (hwords body List.mem_cons_self).isPhrase, hwhole.front_open, hwhole.back_open⟩
  | @pair word word' gap' _ _ _ hblank hwhole hwhole' =>
    have hword := hwords word List.mem_cons_self
    have hword' := hwords word' (List.mem_cons_of_mem _ List.mem_cons_self)
    refine ⟨hgap, ⟨?_, ?_⟩, hwhole.front_open, hwhole'.back_open⟩
    · -- The blanks between the words belong to the phrase.
      have hinner : gap'.all isInner = true := List.all_eq_true.2 fun c hc => by
        rw [isInner, List.all_eq_true.1 hblank c hc, Bool.true_or]
      rw [List.all_append, List.all_append, hword.isPhrase.all_inner, hinner,
        hword'.isPhrase.all_inner]
      rfl
    · rw [← List.append_assoc, List.getLast?_append_of_ne_nil _ hword'.isPhrase.ne_nil]
      exact hword'.last_final

section Words

variable {front region back : Text} {children : List (Option ParseTree)}

/-- A keyword of one word. -/
theorem isSpelled_of_word {word : Text} (hword : IsCapitals word)
    (h : grammar.Reads (.items [.literal word]) front region back children) :
    ∃ gap body, region = gap ++ body ∧ gap.all Text.isBlank = true ∧
      IsSpelled [word] (front ++ gap) body back ∧
      (ParseTree.leavesOf children).map Leaf.text = [word] ∧
      ∀ offset, coverSpan children offset =
        ⟨Text.size (front ++ gap), Text.size (front ++ region)⟩ := by
  obtain ⟨gap, rest, later, rfl, hgap, hglued, rfl, hrest⟩ := h.of_literal_item basic_grammar
  obtain ⟨rfl, rfl⟩ := hrest.of_noItem
  rw [List.nil_append] at hglued
  exact ⟨gap, word, by simp, hgap, .single (hword.not_glued_iff.1 hglued), by simp,
    fun offset => by simp [coverSpan]⟩

/-- A keyword of two words. -/
theorem isSpelled_of_two_words {word word' : Text} (hword : IsCapitals word)
    (hword' : IsCapitals word')
    (h : grammar.Reads (.items [.literal word, .literal word']) front region back children) :
    ∃ gap body, region = gap ++ body ∧ gap.all Text.isBlank = true ∧
      IsSpelled [word, word'] (front ++ gap) body back ∧
      (ParseTree.leavesOf children).map Leaf.text = [word, word'] ∧
      ∀ offset, coverSpan children offset =
        ⟨Text.size (front ++ gap), Text.size (front ++ region)⟩ := by
  obtain ⟨gap, rest, later, rfl, hgap, hglued, rfl, hrest⟩ := h.of_literal_item basic_grammar
  obtain ⟨gap', _, _, rfl, hgap', hglued', rfl, hnone⟩ := hrest.of_literal_item basic_grammar
  obtain ⟨rfl, rfl⟩ := hnone.of_noItem
  simp only [List.append_nil, List.nil_append, List.append_assoc] at hglued hglued'
  have hwhole := hword.not_glued_iff.1 hglued
  have hwhole' := hword'.not_glued_iff.1 hglued'
  refine ⟨gap, word ++ (gap' ++ word'), by simp, hgap, .pair ?_ hgap' hwhole ?_, by simp,
    fun offset => ?_⟩
  · -- Without blanks the first word would go on in the second one.
    rintro rfl
    have hopen := hwhole.back_open
    rw [List.nil_append, List.head?_append_of_ne_nil _ hword'.isPhrase.ne_nil,
      hword'.head_name] at hopen
    cases hopen
  · simpa using hwhole'
  · simp [coverSpan, Span.cover]

/-- A match is a keyword behind blanks. -/
theorem exists_of_reads_keyword {tree : ParseTree}
    (h : grammar.Reads (.expr (.call (.rule 0))) front region back [some tree]) :
    ∃ gap body keyword, region = gap ++ body ∧ IsWritten front gap body back ∧
      keyword ∈ keywords ∧ IsSpelled (keyword.words.map String.toList) (front ++ gap) body back ∧
      occurrenceOf? tree =
        some ⟨⟨Text.size (front ++ gap), Text.size (front ++ region)⟩, keyword⟩ := by
  obtain ⟨rule, below, hrule, hbody, htree⟩ := h.of_rule
  obtain rfl := Option.some.inj (rules_grammar.symm.trans hrule)
  obtain rfl := Option.some.inj (List.singleton_inj.1 htree)
  obtain ⟨branch, hbranch, hreads⟩ := hbody.of_either
  obtain ⟨keyword, hkeyword, rfl⟩ := List.mem_map.1 hbranch
  have hitems := hreads.of_seqOf
  have hfind : ∀ keyword ∈ keywords, keywords.find? (fun other =>
      other.words.map String.toList = keyword.words.map String.toList) = some keyword := by
    decide
  -- The keyword is found by its words, whichever of them it has.
  have hspelled : ∃ gap body, region = gap ++ body ∧ gap.all Text.isBlank = true ∧
      IsSpelled (keyword.words.map String.toList) (front ++ gap) body back ∧
      (ParseTree.leavesOf below).map Leaf.text = keyword.words.map String.toList ∧
      ∀ offset, coverSpan below offset =
        ⟨Text.size (front ++ gap), Text.size (front ++ region)⟩ := by
    have hcapitals := isCapitals_of_mem hkeyword
    rcases words_of_mem hkeyword with ⟨word, hone⟩ | ⟨word, word', htwo⟩
    · rw [hone] at hitems hcapitals ⊢
      exact isSpelled_of_word (hcapitals _ List.mem_cons_self) hitems
    · rw [htwo] at hitems hcapitals ⊢
      exact isSpelled_of_two_words (hcapitals _ List.mem_cons_self)
        (hcapitals _ (List.mem_cons_of_mem _ List.mem_cons_self)) hitems
  obtain ⟨gap, body, hregion, hgap, hspelled, hleaves, hspan⟩ := hspelled
  refine ⟨gap, body, keyword, hregion, hspelled.isWritten (isCapitals_of_mem hkeyword) hgap,
    hkeyword, hspelled, ?_⟩
  unfold occurrenceOf?
  dsimp only
  rw [ParseTree.leaves_node, hleaves, hfind keyword hkeyword, ParseTree.span_node, hspan]
  rfl

end Words

/-! ## Searching a barrier -/

/-- A match is a phrase. -/
theorem isPhrase_of_matches {front region back : Text} (h : grammar.Matches front region back) :
    IsPhrase region := by
  obtain ⟨-, tree, htree⟩ := h
  obtain ⟨gap, body, keyword, rfl, hwritten, -⟩ := exists_of_reads_keyword htree
  refine ⟨?_, ?_⟩
  · rw [List.all_append, hwritten.phrase.all_inner, Bool.and_true, List.all_eq_true]
    intro c hc
    rw [isInner, List.all_eq_true.1 hwritten.gap_blank c hc, Bool.true_or]
  · rw [List.getLast?_append_of_ne_nil _ hwritten.phrase.ne_nil]
    exact hwritten.phrase.last_final

/-- Nothing is found in a barrier. -/
theorem matchesFrom_barrier {text : Text} (h : IsBarrier text) (front tail : Text) :
    grammar.matchesFrom front (text ++ tail) = grammar.matchesFrom (front ++ text) tail := by
  induction text generalizing front with
  | nil => cases h.last_mark
  | cons c later ih =>
    have hstep : grammar.matchesFrom front (c :: later ++ tail) =
        grammar.matchesFrom (front ++ [c]) (later ++ tail) :=
      compiled_grammar.matchesFrom_of_not_matches fun region rest hcut hmatches =>
        h.not_isPhrase hcut (isPhrase_of_matches hmatches)
    rw [hstep]
    cases later with
    | nil => rfl
    | cons d others =>
      rw [ih (h.of_cons (List.cons_ne_nil d others))]
      simp

/-! ## Replacing all keywords -/

/-- The text `cleared` comes from `back`, which stands behind `front`, and no keyword is found in
it. -/
structure IsCleared (front back cleared : Text) : Prop where
  /-- Where a name may go on, the text begins as before. -/
  head_eq : cleared.head? = back.head? ∨ front.getLast?.any Text.isNameChar = false
  /-- Phrases at the beginning have been there before, in front of the same character. -/
  phrase : ∀ {region rest}, IsPhrase region → cleared = region ++ rest →
    ∃ rest', back = region ++ rest' ∧ rest'.head? = rest.head?
  /-- No keyword is found. -/
  matchesFrom_eq_nil : ∀ {front'}, (Text.Joined front' back ↔ Text.Joined front back) →
    grammar.matchesFrom front' cleared = []

/-- A text is cleared from the next character on. -/
theorem IsCleared.skip {front rest cleared : Text} {c : Char}
    (hnone : ∀ region behind, c :: rest = region ++ behind →
      ¬grammar.Matches front region behind)
    (h : IsCleared (front ++ [c]) rest cleared) : IsCleared front (c :: rest) (c :: cleared) := by
  have hphrase : ∀ {region behind}, IsPhrase region → c :: cleared = region ++ behind →
      ∃ behind', c :: rest = region ++ behind' ∧ behind'.head? = behind.head? := by
    intro region behind hregion hcut
    rcases List.cons_eq_append_iff.1 hcut with ⟨rfl, -⟩ | ⟨region, rfl, rfl⟩
    · exact absurd rfl hregion.ne_nil
    · by_cases hne : region = []
      · subst hne
        -- The phrase is the letter alone, which is part of a name.
        have hname : (front ++ [c]).getLast?.any Text.isNameChar = true := by
          have hfinal := hregion.last_final
          simp only [isFinal, List.getLast?_singleton, Option.any_some, Bool.and_eq_true] at hfinal
          simpa using isNameChar_of_isUpper hfinal.1.1
        refine ⟨rest, rfl, ?_⟩
        rcases h.head_eq with hhead | hopen
        · exact hhead.symm
        · rw [hname] at hopen
          cases hopen
      · obtain ⟨behind', rfl, hhead⟩ := h.phrase (hregion.of_cons hne) rfl
        exact ⟨behind', rfl, hhead⟩
  refine ⟨Or.inl rfl, hphrase, fun {front'} hfront => ?_⟩
  rw [compiled_grammar.matchesFrom_of_not_matches]
  · refine h.matchesFrom_eq_nil ?_
    simp [Text.Joined]
  · intro region behind hcut hmatches
    obtain ⟨behind', hcut', hhead⟩ := hphrase (isPhrase_of_matches hmatches) hcut
    refine hnone region behind' hcut' (hmatches.of_alike basic_grammar ?_ hhead)
    -- Both texts begin with the same region.
    obtain ⟨first, others, rfl⟩ := List.exists_cons_of_ne_nil hmatches.1
    rw [hcut'] at hfront
    simpa [Text.Joined] using hfront.symm

/-- A text is cleared from behind a keyword on. -/
theorem IsCleared.found {front gap body rest cleared : Text} {keyword : Keyword}
    (hkeyword : keyword ∈ keywords) (hwritten : IsWritten front gap body rest)
    (h : IsCleared (front ++ (gap ++ body)) rest cleared) :
    IsCleared front (gap ++ body ++ rest)
      (gap ++ keyword.operator.toList ++ cleared) := by
  have hbarrier := isBarrier_operator hkeyword hwritten.gap_blank
  refine ⟨?_, fun hregion hcut => absurd hregion (hbarrier.not_isPhrase hcut),
    fun {front'} _ => ?_⟩
  · cases gap with
    | nil => exact Or.inr (by simpa using hwritten.front_open)
    | cons c later => exact Or.inl rfl
  · rw [matchesFrom_barrier hbarrier]
    refine h.matchesFrom_eq_nil ?_
    -- The keyword does not go on as a name, so what stands ahead of the rest does not matter.
    simp [Text.Joined, hwritten.back_open]

end Retrace.TextualQuantifiers
