import Retrace.Proofs.Extension.TextualQuantifiers.Scanned
import Retrace.Proofs.Revision.Woven

/-!
# What becomes of a query

A query falls into kept characters and keywords (`IsScan`), and its revision falls into kept
stretches and edits (`Weave`). The second is read off the first by collecting kept characters until
the next keyword comes (`Piece.weave`). So every piece of the query has its place in the revised
query, and whatever is traced back from there comes back to that piece (`Respells`).

## Main definitions

* `Piece.weave`: the revision of a text whose pieces these are;
* `Respells`: a revision puts operators in place of the keywords among some pieces;
* `complaints`: what is said about the keywords of a query.

## Main results

* `replaceAll_occurrences`: replacing the keywords one after the other gives this revision;
* `exists_scan_reviseQuery`: what becomes of any query.
-/

namespace Retrace.TextualQuantifiers

open Grammar

/-! ## Pieces and strands -/

namespace Piece

/-- What is replaced in some pieces, where the characters `ahead` were kept since the latest
keyword. -/
def weave : (ahead : Text) → List Piece → Weave
  | ahead, [] => ⟨[], ahead⟩
  | ahead, kept c :: later => weave (ahead ++ [c]) later
  | ahead, keyword body found :: later =>
    let rest := weave [] later
    ⟨⟨ahead, body, found.operator.toList, .discarded⟩ :: rest.strands, rest.tail⟩

variable (ahead : Text) (front back : List Piece)

/-- Before all edits the strands are the text of the pieces. -/
theorem bases_weave (pieces : List Piece) :
    Strand.bases (weave ahead pieces).strands ++ (weave ahead pieces).tail =
      ahead ++ source pieces := by
  induction pieces generalizing ahead with
  | nil => simp [weave, source]
  | cons piece later ih =>
    cases piece with
    | kept c => simp [weave, source, ih]
    | keyword body found => simp [weave, source, ih]

/-- After all edits they are the text with the operators. -/
theorem currents_weave (pieces : List Piece) :
    Strand.currents (weave ahead pieces).strands ++ (weave ahead pieces).tail =
      ahead ++ target pieces := by
  induction pieces generalizing ahead with
  | nil => simp [weave, target]
  | cons piece later ih =>
    cases piece with
    | kept c => simp [weave, target, ih]
    | keyword body found => simp [weave, target, ih]

/-- Pieces are woven from left to right. -/
theorem weave_append :
    weave ahead (front ++ back) =
      ⟨(weave ahead front).strands ++ (weave (weave ahead front).tail back).strands,
        (weave (weave ahead front).tail back).tail⟩ := by
  induction front generalizing ahead with
  | nil => rfl
  | cons piece later ih =>
    cases piece with
    | kept c => exact ih _
    -- A strand ends with its keyword, so nothing is kept ahead of the pieces behind it.
    | keyword body found => simp [weave, ih]

/-- The characters ahead are kept in front of the first edit. -/
theorem size_le_lead (pieces : List Piece) :
    Text.size ahead ≤
      Text.size (Weave.lead (weave ahead pieces).strands (weave ahead pieces).tail) := by
  induction pieces generalizing ahead with
  | nil => exact Nat.le_refl _
  | cons piece later ih =>
    cases piece with
    | kept c =>
      refine Nat.le_trans ?_ (ih (ahead ++ [c]))
      rw [Text.size_append]
      exact Nat.le_add_right ..
    | keyword body found => exact Nat.le_refl _

/-- The strands hold the keywords. -/
theorem exists_of_mem_strands {pieces : List Piece} {strand : Strand}
    (h : strand ∈ (weave ahead pieces).strands) :
    ∃ body found, keyword body found ∈ pieces ∧ strand.inserted = found.operator.toList := by
  induction pieces generalizing ahead with
  | nil => cases h
  | cons piece later ih =>
    cases piece with
    | kept c =>
      obtain ⟨body, found, hmem, hinserted⟩ := ih _ h
      exact ⟨body, found, List.mem_cons_of_mem _ hmem, hinserted⟩
    | keyword body found =>
      rcases List.mem_cons.1 h with rfl | h
      · exact ⟨body, found, List.mem_cons_self, rfl⟩
      · obtain ⟨body', found', hmem, hinserted⟩ := ih _ h
        exact ⟨body', found', List.mem_cons_of_mem _ hmem, hinserted⟩

/-- Nothing is replaced exactly if there is no keyword. -/
theorem strands_eq_nil_iff (offset : Nat) (pieces : List Piece) :
    (weave ahead pieces).strands = [] ↔ occurrences offset pieces = [] := by
  induction pieces generalizing ahead offset with
  | nil => simp [weave, occurrences]
  | cons piece later ih =>
    cases piece with
    | kept c => exact ih ..
    | keyword body found => simp [weave, occurrences]

theorem hasEdits_weave (pieces : List Piece) :
    (weave [] pieces).revision.hasEdits = !(occurrences 0 pieces).isEmpty := by
  have hnil := strands_eq_nil_iff [] 0 pieces
  rw [Revision.hasEdits, Weave.revision]
  cases hstrands : (weave [] pieces).strands with
  | nil => rw [hnil.1 hstrands]; rfl
  | cons strand later =>
    have hne : occurrences 0 pieces ≠ [] := fun h => by
      rw [hnil.2 h] at hstrands
      cases hstrands
    rw [List.isEmpty_eq_false_iff.2 hne]
    rfl

end Piece

/-- Replacing the keywords one after the other, behind what is done already. -/
theorem replaceAll_occurrences (done : List Strand) (ahead : Text) (pieces : List Piece) :
    replaceAll (Piece.occurrences (Text.size (Strand.bases done) + Text.size ahead) pieces)
        (Weave.mk done (ahead ++ Piece.source pieces)).revision =
      .ok (Weave.mk (done ++ (Piece.weave ahead pieces).strands)
        (Piece.weave ahead pieces).tail).revision := by
  induction pieces generalizing done ahead with
  | nil =>
    rw [Piece.source, Piece.weave, List.append_nil, List.append_nil]
    rfl
  | cons piece later ih =>
    cases piece with
    | kept c =>
      have hlater := ih done (ahead ++ [c])
      rw [List.append_assoc, Text.size_append, ← Nat.add_assoc] at hlater
      simpa [Piece.occurrences, Piece.source, Piece.weave] using hlater
    | keyword body found =>
      have hreplace := Weave.replace_revision done
        ⟨ahead, body, found.operator.toList, .discarded⟩ (Piece.source later)
      have hlater := ih (done ++ [⟨ahead, body, found.operator.toList, .discarded⟩]) []
      -- With the keyword, what is done ends where the keyword does.
      have hsize : Text.size (Strand.bases (done ++
          [⟨ahead, body, found.operator.toList, .discarded⟩])) + Text.size [] =
            Text.size (Strand.bases done) + Text.size ahead + Text.size body := by
        simp [Strand.bases_append, Nat.add_assoc]
      rw [hsize, List.append_assoc] at hlater
      rw [Piece.occurrences, Piece.source, replaceAll, List.foldlM_cons, hreplace]
      exact hlater

/-! ## Tracing pieces back -/

/-- A revision of the text of some pieces that has operators in place of the keywords. What is kept
is traced back to itself, an operator to its keyword and what lies inside it to nothing. -/
structure Respells (pieces : List Piece) (revision : Revision) : Prop where
  /-- It started from the text of the pieces. -/
  base_eq : revision.base = Piece.source pieces
  /-- The keywords are replaced, and all other characters are kept. -/
  current_eq : revision.current = Piece.target pieces
  /-- The bytes of a kept character come back to this character. -/
  retrace?_kept : ∀ {front c back}, pieces = front ++ .kept c :: back → ∀ byte ≤ c.utf8Size,
    revision.retrace? (Text.size (Piece.target front) + byte) =
      some (Text.size (Piece.source front) + byte)
  /-- The span of a kept character comes back as its span. -/
  retraceSpan?_kept : ∀ {front c back}, pieces = front ++ .kept c :: back →
    revision.retraceSpan? ⟨Text.size (Piece.target front),
        Text.size (Piece.target front) + c.utf8Size⟩ =
      some ⟨Text.size (Piece.source front), Text.size (Piece.source front) + c.utf8Size⟩
  /-- The span of an operator comes back as the span of the keyword. -/
  retraceSpan?_operator : ∀ {front body found back}, pieces = front ++ .keyword body found :: back →
    revision.retraceSpan? ⟨Text.size (Piece.target front),
        Text.size (Piece.target front) + Text.size found.operator.toList⟩ =
      some ⟨Text.size (Piece.source front), Text.size (Piece.source front) + Text.size body⟩
  /-- Offsets strictly inside an operator come back to nothing. -/
  retrace?_operator : ∀ {front body found back}, pieces = front ++ .keyword body found :: back →
    ∀ byte, 0 < byte → byte < Text.size found.operator.toList →
      revision.retrace? (Text.size (Piece.target front) + byte) = none

/-- Operators are not empty. -/
theorem IsScan.filled {front : Text} {pieces : List Piece} (h : IsScan front pieces)
    (ahead : Text) : ∀ strand ∈ (Piece.weave ahead pieces).strands, strand.inserted ≠ [] := by
  intro strand hstrand
  obtain ⟨body, found, hmem, hinserted⟩ := Piece.exists_of_mem_strands ahead hstrand
  obtain ⟨before, after, rfl⟩ := List.append_of_mem hmem
  rw [hinserted]
  have hkeywords : ∀ keyword ∈ keywords, keyword.operator.toList ≠ [] := by
    decide
  exact hkeywords found (Keyword.known_iff.1 h.isAt.known)

/-- What is woven from the pieces of a scan puts operators in place of the keywords. -/
theorem IsScan.respells {pieces : List Piece} (h : IsScan [] pieces) :
    Respells pieces (Piece.weave [] pieces).revision := by
  -- What stands ahead of a piece are strands and characters that were kept since the last of them.
  have hsource (front : List Piece) : Piece.source front =
      Strand.bases (Piece.weave [] front).strands ++ (Piece.weave [] front).tail :=
    (Piece.bases_weave [] front).symm
  have htarget (front : List Piece) : Piece.target front =
      Strand.currents (Piece.weave [] front).strands ++ (Piece.weave [] front).tail :=
    (Piece.currents_weave [] front).symm
  have hlead (ahead : Text) (c : Char) (back : List Piece) : Text.size ahead + c.utf8Size ≤
      Text.size (Weave.lead (Piece.weave ahead (.kept c :: back)).strands
        (Piece.weave ahead (.kept c :: back)).tail) := by
    have hle := Piece.size_le_lead (ahead ++ [c]) back
    rw [Text.size_append, Text.size_cons, Text.size_nil, Nat.add_zero] at hle
    exact hle
  refine ⟨Piece.bases_weave .., Piece.currents_weave .., ?_, ?_, ?_, ?_⟩
  · rintro front c back rfl byte hbyte
    rw [Piece.weave_append, hsource, htarget, Text.size_append, Text.size_append, Nat.add_assoc,
      Nat.add_assoc]
    exact Weave.retrace?_lead (h.behind.filled _) ((Nat.add_le_add_left hbyte _).trans (hlead ..))
  · rintro front c back rfl
    rw [Piece.weave_append, hsource, htarget, Text.size_append, Text.size_append, Nat.add_assoc,
      Nat.add_assoc]
    exact Weave.retraceSpan?_lead (h.behind.filled _) (Nat.le_add_right ..) (hlead ..)
  · rintro front body found back rfl
    have hspan := Weave.retraceSpan?_inserted (Piece.weave [] front).strands
      (Piece.weave [] back).tail (h.behind.filled (Piece.weave [] front).tail)
    rw [← List.append_assoc, Text.size_append _ body] at hspan
    rw [Piece.weave_append, hsource, htarget]
    exact hspan
  · rintro front body found back rfl byte hpos hbyte
    let strand : Strand := ⟨(Piece.weave [] front).tail, body, found.operator.toList, .discarded⟩
    have hlength : Text.size strand.inserted ≠ Text.size strand.removed :=
      Nat.ne_of_lt h.isAt.size_lt
    have hinside := Weave.retrace?_inside (Piece.weave [] front).strands
      (Piece.weave [] back).strands (Piece.weave [] back).tail hlength hpos hbyte
    rw [Piece.weave_append, htarget]
    exact hinside

/-! ## Queries -/

/-- What is said about the keywords of a query: where two of them or more quantify over paths, there
is one diagnostic, at the second of these. -/
def complaints (query : Text) (occurrences : List Occurrence) : List Diagnostic :=
  match occurrences.filter (·.keyword.isQuantifier) with
  | _ :: second :: _ =>
    [Diagnostic.atSpan "/query" query second.span "a formula takes a single path quantifier"]
  | _ => []

theorem secondQuantifier?_map (query : Text) (occurrences : List Occurrence) :
    ((secondQuantifier? occurrences).toList.map fun span =>
        Diagnostic.atSpan queryPath query span secondQuantifierMessage) =
      complaints query occurrences := by
  unfold secondQuantifier? complaints
  generalize occurrences.filter (·.keyword.isQuantifier) = quantifiers
  rcases quantifiers with _ | ⟨first, _ | ⟨second, others⟩⟩
  · rfl
  · rfl
  · rfl

/-- What is made of a query in which the keywords of some pieces are found. -/
theorem reviseQuery_eq {pieces : List Piece}
    (hfound : occurrencesIn (Piece.source pieces) = Piece.occurrences 0 pieces) :
    reviseQuery (Piece.source pieces) = .ok (match Piece.occurrences 0 pieces with
      | [] => none
      | occurrences@(_ :: _) => some {
          revision := (Piece.weave [] pieces).revision
          diagnostics := complaints (Piece.source pieces) occurrences }) := by
  have hreplace : replaceAll (Piece.occurrences 0 pieces) (.ofText (Piece.source pieces)) =
      .ok (Piece.weave [] pieces).revision :=
    replaceAll_occurrences [] [] pieces
  unfold reviseQuery
  dsimp only
  rw [hfound, hreplace]
  dsimp only
  rw [secondQuantifier?_map, Piece.hasEdits_weave]
  -- Without a keyword there are no edits, so the query is left alone.
  cases Piece.occurrences 0 pieces with
  | nil => rfl
  | cons first others => rfl

/-- Every query has a single scan, which tells what becomes of it: without keywords it is left alone,
otherwise the operators are put in their place. Nothing is replaced in what comes out of this. -/
theorem exists_scan_reviseQuery (query : Text) :
    ∃ pieces revision,
      (∀ others, IsScan [] others ∧ Piece.source others = query ↔ others = pieces) ∧
      Respells pieces revision ∧
      reviseQuery query = .ok (match Piece.occurrences 0 pieces with
        | [] => none
        | occurrences@(_ :: _) =>
          some { revision, diagnostics := complaints query occurrences }) ∧
      reviseQuery (Piece.target pieces) = .ok none := by
  obtain ⟨pieces, hscan, rfl, hfound, hcleared⟩ := exists_isScan_occurrencesIn query
  refine ⟨pieces, (Piece.weave [] pieces).revision, fun others => ⟨fun h => h.1.unique hscan h.2, ?_⟩,
    hscan.respells, reviseQuery_eq hfound, ?_⟩
  · rintro rfl
    exact ⟨hscan, rfl⟩
  · -- Nothing is found any more, so nothing is replaced.
    unfold reviseQuery
    rw [hcleared]
    rfl

/-- Two words are taken as one keyword, and a keyword inside a name is left alone. -/
example : ((reviseQuery "POTENTIALLY  ALWAYS p LEADS TO ALWAYS_x".toList).toOption.join.map
    fun revised => String.ofList revised.revision.current) = some "E[] p --> ALWAYS_x" := by
  decide +kernel

end Retrace.TextualQuantifiers
