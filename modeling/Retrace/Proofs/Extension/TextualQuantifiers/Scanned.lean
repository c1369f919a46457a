import Retrace.Proofs.Extension.TextualQuantifiers.Keywords

/-!
# Keywords are found as whole words

What the extension looks for, told without its grammar: a text is read from left to right, and
wherever a keyword stands as a whole word it is taken in one piece, while every other character is a
piece of its own (`IsScan`). A text has a single scan (`IsScan.unique`), and the keywords in it are
those that the grammar finds (`exists_isScan`).

The grammar finds a keyword with the blanks ahead of it, at the first of these blanks, and where it
finds one it takes the longest. Neither makes a difference: no keyword begins with a blank, and at
one place there is never more than one keyword, since the capital letters that stand there are its
first word (`Keyword.IsAt.unique`).

## Main definitions

* `Keyword.Known`: the keywords and their operators;
* `Keyword.IsAt`: a keyword stands between two parts of a text;
* `Piece`, `IsScan`: the pieces of a text that is read from left to right;
* `Piece.source`, `Piece.target`: the text, and the text with operators for keywords.
-/

namespace Retrace.TextualQuantifiers

open Grammar

/-! ## One keyword at a place -/

/-- The keywords, with their operators; all but the last one quantify over paths. -/
inductive Keyword.Known : Keyword → Prop
  | invariably : Known ⟨["INVARIABLY"], "A[]", true⟩
  | always : Known ⟨["ALWAYS"], "A[]", true⟩
  | possibly : Known ⟨["POSSIBLY"], "E<>", true⟩
  | eventually : Known ⟨["EVENTUALLY"], "A<>", true⟩
  | potentiallyAlways : Known ⟨["POTENTIALLY", "ALWAYS"], "E[]", true⟩
  | leadsTo : Known ⟨["LEADS", "TO"], "-->", false⟩

theorem Keyword.known_iff {keyword : Keyword} : keyword.Known ↔ keyword ∈ keywords := by
  constructor
  · intro h
    cases h <;> decide
  · intro h
    simp only [keywords, List.mem_cons, List.not_mem_nil, or_false] at h
    rcases h with rfl | rfl | rfl | rfl | rfl | rfl
    · exact .potentiallyAlways
    · exact .invariably
    · exact .always
    · exact .possibly
    · exact .eventually
    · exact .leadsTo

/-- Between two parts of a text stands a keyword. -/
structure Keyword.IsAt (keyword : Keyword) (front body back : Text) : Prop where
  /-- It is one of the keywords. -/
  known : keyword.Known
  /-- Its words are there, as whole words with blanks between them. -/
  spelled : IsSpelled (keyword.words.map String.toList) front body back

/-- Behind a whole word there are no further capital letters. -/
theorem IsWhole.stops {front back : Text} (h : IsWhole front back) :
    Text.Stops Char.isUpper back := by
  intro c hc
  have hopen := h.back_open
  rw [hc, Option.any_some] at hopen
  -- A capital letter would be part of a name.
  exact Bool.eq_false_iff.2 fun hupper => by
    rw [isNameChar_of_isUpper hupper] at hopen
    cases hopen

namespace IsSpelled

variable {words : List Text} {front body back body' back' : Text}

/-- The capital letters at the beginning are the first word. -/
theorem head?_eq (h : IsSpelled words front body back)
    (hwords : ∀ word ∈ words, IsCapitals word) :
    words.head? = some ((body ++ back).takeWhile Char.isUpper) := by
  cases h with
  | single hwhole =>
    have hword := hwords body List.mem_cons_self
    rw [Text.takeWhile_append hword.all_upper hwhole.stops]
    rfl
  | @pair word word' gap _ _ _ _ hwhole =>
    have hword := hwords word List.mem_cons_self
    rw [List.append_assoc, List.append_assoc,
      Text.takeWhile_append hword.all_upper hwhole.stops]
    rfl

/-- What is spelled begins with the first word. -/
theorem exists_append (h : IsSpelled words front body back) :
    ∃ word later, words.head? = some word ∧ body = word ++ later := by
  cases h with
  | single => exact ⟨body, [], rfl, (List.append_nil body).symm⟩
  | pair => exact ⟨_, _, rfl, rfl⟩

/-- The same words cannot be spelled in two ways at one place. -/
theorem unique (h : IsSpelled words front body back) (h' : IsSpelled words front body' back')
    (hwords : ∀ word ∈ words, IsCapitals word) (hcut : body ++ back = body' ++ back') :
    body = body' := by
  cases h with
  | single =>
    cases h' with
    | single => rfl
  | @pair word word' gap _ _ _ hblank =>
    cases h' with
    | @pair _ _ gap' _ _ _ hblank' =>
      -- Both gaps are the blanks behind the first word.
      have hstops := (hwords word' (List.mem_cons_of_mem _ List.mem_cons_self)).stops_blank
      simp only [List.append_assoc, List.append_cancel_left_eq] at hcut
      have hgap := congrArg (List.takeWhile Text.isBlank) hcut
      rw [Text.takeWhile_append hblank (hstops back),
        Text.takeWhile_append hblank' (hstops back')] at hgap
      rw [hgap]

end IsSpelled

theorem Keyword.Known.isCapitals {keyword : Keyword} (h : keyword.Known) :
    ∀ word ∈ keyword.words.map String.toList, IsCapitals word :=
  isCapitals_of_mem (Keyword.known_iff.1 h)

namespace Keyword.IsAt

variable {keyword keyword' : Keyword} {front body back body' back' : Text}

/-- At one place there is no more than one keyword. -/
theorem unique (h : keyword.IsAt front body back) (h' : keyword'.IsAt front body' back')
    (hcut : body ++ back = body' ++ back') : keyword = keyword' ∧ body = body' := by
  have hfirst : ∀ keyword ∈ keywords, ∀ keyword' ∈ keywords,
      (keyword.words.map String.toList).head? = (keyword'.words.map String.toList).head? →
        keyword = keyword' := by
    decide
  have heq := h.spelled.head?_eq h.known.isCapitals
  have heq' := h'.spelled.head?_eq h'.known.isCapitals
  rw [hcut, ← heq'] at heq
  -- The first word tells the keywords apart.
  obtain rfl := hfirst keyword (known_iff.1 h.known) keyword' (known_iff.1 h'.known) heq
  exact ⟨rfl, h.spelled.unique h'.spelled h.known.isCapitals hcut⟩

/-- A keyword begins with a capital letter. -/
theorem exists_cons (h : keyword.IsAt front body back) :
    ∃ c later, body = c :: later ∧ c.isUpper = true := by
  obtain ⟨word, tail, hhead, rfl⟩ := h.spelled.exists_append
  have hword := h.known.isCapitals word (List.mem_of_mem_head? hhead)
  obtain ⟨c, later, rfl⟩ := List.exists_cons_of_ne_nil hword.isPhrase.ne_nil
  exact ⟨c, later ++ tail, rfl, List.all_eq_true.1 hword.all_upper c List.mem_cons_self⟩

/-- The operator is shorter than the keyword. -/
theorem size_lt (h : keyword.IsAt front body back) :
    Text.size keyword.operator.toList < Text.size body := by
  have hlt : ∀ keyword ∈ keywords, ∀ word ∈ (keyword.words.map String.toList).head?,
      Text.size keyword.operator.toList < Text.size word := by
    decide
  obtain ⟨word, tail, hhead, rfl⟩ := h.spelled.exists_append
  have hword := hlt keyword (known_iff.1 h.known) word hhead
  rw [Text.size_append]
  omega

end Keyword.IsAt

/-! ## What the grammar matches -/

section Matches

variable {word back : Text}

/-- A whole word is read behind blanks. -/
theorem reads_literal (front gap : Text) (hword : IsCapitals word) (hgap : gap.all Text.isBlank = true)
    (hwhole : IsWhole (front ++ gap) back) :
    ∃ children, grammar.Reads (.expr (.literal word)) front (gap ++ word) back children := by
  refine ⟨_, Yields.literal ⟨by rw [List.append_assoc], ?_, hword.not_glued_iff.2 hwhole⟩⟩
  rw [basic_grammar.skip_eq, Shape.getD_length?_blanks]
  exact ⟨hgap, hword.stops_blank back⟩

/-- Words that are spelled are read. -/
theorem reads_of_isSpelled {words : List Text} {front body : Text} (h : IsSpelled words front body back)
    (hwords : ∀ word ∈ words, IsCapitals word) :
    ∃ children, grammar.Reads (.expr (.seqOf (words.map Expr.literal))) front body back
      children := by
  cases h with
  | single hwhole =>
    have hword := hwords body List.mem_cons_self
    exact reads_literal front [] hword rfl (by rwa [List.append_nil])
  | @pair word word' gap _ _ _ hblank hwhole hwhole' =>
    have hword := hwords word List.mem_cons_self
    have hword' := hwords word' (List.mem_cons_of_mem _ List.mem_cons_self)
    obtain ⟨here, hhere⟩ := reads_literal front [] hword rfl (by rwa [List.append_nil])
    obtain ⟨there, hthere⟩ := reads_literal (front ++ word) gap hword' hblank
      (by rwa [List.append_assoc])
    have hnone : grammar.Reads (.items []) (front ++ word ++ (gap ++ word')) [] back [] := by
      rw [Reads, List.append_nil]
      exact .noItem _
    have hlater := Reads.append .item hthere hnone
    rw [List.append_nil] at hlater
    have hitems := Reads.append .item (by simpa using hhere) hlater
    exact ⟨_, .seq hitems⟩

/-- Where a keyword stands the grammar matches it. -/
theorem Keyword.IsAt.matches {keyword : Keyword} {front body : Text}
    (h : keyword.IsAt front body back) : grammar.Matches front body back := by
  obtain ⟨c, later, rfl, -⟩ := h.exists_cons
  obtain ⟨children, hreads⟩ := reads_of_isSpelled h.spelled h.known.isCapitals
  rw [List.map_map] at hreads
  refine ⟨List.cons_ne_nil c later, _, Yields.rule rules_grammar (Yields.either ?_ hreads)⟩
  exact List.mem_map.2 ⟨keyword, Keyword.known_iff.1 h.known, rfl⟩

end Matches

/-! ## Scanning a text -/

/-- A piece of a text that is read from left to right. -/
inductive Piece where
  /-- A character that is kept. -/
  | kept (c : Char)
  /-- A keyword, as it is written. -/
  | keyword (body : Text) (keyword : Keyword)

namespace Piece

/-- The text of some pieces. -/
def source : List Piece → Text
  | [] => []
  | kept c :: later => c :: source later
  | keyword body _ :: later => body ++ source later

/-- The text of some pieces with operators in place of keywords. -/
def target : List Piece → Text
  | [] => []
  | kept c :: later => c :: target later
  | keyword _ found :: later => found.operator.toList ++ target later

/-- The keywords among some pieces that begin at an offset. -/
def occurrences : (offset : Nat) → List Piece → List Occurrence
  | _, [] => []
  | offset, kept c :: later => occurrences (offset + c.utf8Size) later
  | offset, keyword body found :: later =>
    ⟨⟨offset, offset + Text.size body⟩, found⟩ :: occurrences (offset + Text.size body) later

theorem source_map_kept_append (gap : Text) (pieces : List Piece) :
    source (gap.map kept ++ pieces) = gap ++ source pieces := by
  induction gap with
  | nil => rfl
  | cons c later ih => exact congrArg (c :: ·) ih

theorem target_map_kept_append (gap : Text) (pieces : List Piece) :
    target (gap.map kept ++ pieces) = gap ++ target pieces := by
  induction gap with
  | nil => rfl
  | cons c later ih => exact congrArg (c :: ·) ih

theorem occurrences_map_kept_append (offset : Nat) (gap : Text) (pieces : List Piece) :
    occurrences offset (gap.map kept ++ pieces) =
      occurrences (offset + Text.size gap) pieces := by
  induction gap generalizing offset with
  | nil => rfl
  | cons c later ih =>
    rw [List.map_cons, List.cons_append, occurrences, ih, Text.size_cons, Nat.add_assoc]

end Piece

/-- The text behind `front` is read from left to right: where a keyword stands it is taken, elsewhere
a character is kept. -/
inductive IsScan : (front : Text) → List Piece → Prop
  | nil (front : Text) : IsScan front []
  | kept {front : Text} {c : Char} {later : List Piece} :
      (∀ body back keyword, c :: Piece.source later = body ++ back →
        ¬Keyword.IsAt keyword front body back) →
      IsScan (front ++ [c]) later → IsScan front (.kept c :: later)
  | keyword {front body : Text} {keyword : Keyword} {later : List Piece} :
      keyword.IsAt front body (Piece.source later) → IsScan (front ++ body) later →
      IsScan front (.keyword body keyword :: later)

namespace IsScan

variable {front : Text} {pieces others : List Piece}

/-- A text has a single scan. -/
theorem unique (h : IsScan front pieces) (h' : IsScan front others)
    (hsource : Piece.source pieces = Piece.source others) : pieces = others := by
  -- A keyword stands at a place or none does, and it is a single one, so both scans take the same
  -- piece.
  induction h generalizing others with
  | nil front =>
    cases h' with
    | nil => rfl
    | kept => cases hsource
    | keyword hat =>
      obtain ⟨c, later, rfl, -⟩ := hat.exists_cons
      cases hsource
  | @kept front c later hnone _ ih =>
    cases h' with
    | nil => cases hsource
    | kept _ hlater =>
      obtain ⟨rfl, hrest⟩ := List.cons.inj hsource
      rw [ih hlater hrest]
    | keyword hat => exact absurd hat (hnone _ _ _ hsource)
  | @keyword front body found later hat _ ih =>
    cases h' with
    | nil =>
      obtain ⟨c, rest, rfl, -⟩ := hat.exists_cons
      cases hsource
    | kept hnone => exact absurd hat (hnone _ _ _ hsource.symm)
    | keyword hat' hlater =>
      obtain ⟨rfl, rfl⟩ := hat.unique hat' hsource
      rw [ih hlater (List.append_cancel_left hsource)]

/-- Blanks are kept. -/
theorem map_kept_append {gap : Text} (hgap : gap.all Text.isBlank = true)
    (h : IsScan (front ++ gap) pieces) : IsScan front (gap.map Piece.kept ++ pieces) := by
  induction gap generalizing front with
  | nil => simpa using h
  | cons c later ih =>
    rw [List.all_cons, Bool.and_eq_true] at hgap
    refine .kept (fun body back keyword hcut hat => ?_) (ih hgap.2 (by simpa using h))
    -- A keyword begins with a capital letter, which is no blank.
    obtain ⟨d, rest, rfl, hupper⟩ := hat.exists_cons
    obtain ⟨rfl, -⟩ := List.cons.inj hcut
    rw [isBlank_of_isUpper hupper] at hgap
    cases hgap.1

/-- Behind some of its pieces a scan goes on with the others. -/
theorem behind {before after : List Piece} (h : IsScan front (before ++ after)) :
    IsScan (front ++ Piece.source before) after := by
  induction before generalizing front with
  | nil => simpa [Piece.source] using h
  | cons piece later ih =>
    cases h with
    | kept _ hlater => simpa [Piece.source] using ih hlater
    | keyword _ hlater => simpa [Piece.source] using ih hlater

/-- The keywords of a scan stand in the text. -/
theorem isAt {before after : List Piece} {body : Text} {keyword : Keyword}
    (h : IsScan front (before ++ .keyword body keyword :: after)) :
    keyword.IsAt (front ++ Piece.source before) body (Piece.source after) := by
  cases h.behind with
  | keyword hat => exact hat

end IsScan

/-- The keywords of a scan are those that are found, and once they are replaced none is found. -/
theorem exists_isScan (front back : Text) :
    ∃ pieces, IsScan front pieces ∧ Piece.source pieces = back ∧
      (grammar.matchesFrom front back).filterMap occurrenceOf? =
        Piece.occurrences (Text.size front) pieces ∧
      IsCleared front back (Piece.target pieces) := by
  induction front, back using compiled_grammar.sweep with
  | nil front =>
    refine ⟨[], .nil front, rfl, by rw [matchesFrom_nil]; rfl, Or.inl rfl, fun hregion hcut => ?_,
      fun _ => matchesFrom_nil _⟩
    exact absurd (List.append_eq_nil_iff.1 hcut.symm).1 hregion.ne_nil
  | skip front c rest hnone hstep ih =>
    obtain ⟨pieces, hscan, rfl, hfound, hcleared⟩ := ih
    refine ⟨.kept c :: pieces, .kept (fun body back keyword hcut hat => ?_) hscan, rfl, ?_,
      hcleared.skip hnone⟩
    · exact hnone body back hcut hat.matches
    · rw [hstep, hfound, Text.size_append]
      simp [Piece.occurrences]
  | found front region rest tree htree hstep ih =>
    obtain ⟨pieces, hscan, rfl, hfound, hcleared⟩ := ih
    obtain ⟨gap, body, keyword, rfl, hwritten, hkeyword, hspelled, hoccurrence⟩ :=
      exists_of_reads_keyword htree
    -- The blanks ahead of the keyword are kept, and then the keyword is taken.
    refine ⟨gap.map .kept ++ .keyword body keyword :: pieces,
      .map_kept_append hwritten.gap_blank (.keyword ⟨Keyword.known_iff.2 hkeyword, hspelled⟩ ?_),
      ?_, ?_, ?_⟩
    · rw [List.append_assoc]
      exact hscan
    · rw [Piece.source_map_kept_append, List.append_assoc]
      rfl
    · rw [hstep, List.filterMap_cons, hoccurrence, hfound, Piece.occurrences_map_kept_append]
      simp [Piece.occurrences, Text.size_append, Nat.add_assoc]
    · rw [Piece.target_map_kept_append]
      simpa [Piece.target] using hcleared.found hkeyword hwritten

/-- The same for a whole text. -/
theorem exists_isScan_occurrencesIn (text : Text) :
    ∃ pieces, IsScan [] pieces ∧ Piece.source pieces = text ∧
      occurrencesIn text = Piece.occurrences 0 pieces ∧ occurrencesIn (Piece.target pieces) = [] := by
  obtain ⟨pieces, hscan, hsource, hfound, hcleared⟩ := exists_isScan [] text
  refine ⟨pieces, hscan, hsource, ?_, ?_⟩
  · rw [occurrencesIn, findAll_eq]
    exact hfound
  · rw [occurrencesIn, findAll_eq, hcleared.matchesFrom_eq_nil Iff.rfl]
    rfl

end Retrace.TextualQuantifiers
