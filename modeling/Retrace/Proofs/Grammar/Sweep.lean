import Retrace.Proofs.Grammar.Leftmost
import Retrace.Proofs.Grammar.Region

/-!
# Scanning a text step by step

A text is scanned from left to right. What is found from a place on is given by three equations: at
the end of the text nothing is found; where nothing matches the search goes on at the next character
(`matchesFrom_of_not_matches`); where something matches the longest match is taken and the search
goes on behind it (`exists_matchesFrom_eq_cons`). They refer to derivations alone and not to charts,
so two scans are compared by comparing what can be derived. A proof about all places of a text
follows the scan from its end back to its beginning (`Compiled.sweep`).

## Main definitions

* `Grammar.Matches`: the top rule matches a region of a text.
-/

namespace Retrace

namespace Grammar

variable {grammar : Grammar} {front region back : Text}

/-- The top rule matches a region, which is not empty. -/
def Matches (grammar : Grammar) (front region back : Text) : Prop :=
  region ≠ [] ∧ ∃ tree, grammar.Reads (.expr (.call (.rule 0))) front region back [some tree]

/-- A match is one in any other text with alike neighbouring characters. -/
theorem Matches.of_alike (hgrammar : grammar.Basic) {front' back' : Text}
    (h : grammar.Matches front region back)
    (hfront : Text.Joined front' (region ++ back) ↔ Text.Joined front (region ++ back))
    (hback : back'.head? = back.head?) : grammar.Matches front' region back' := by
  obtain ⟨hne, tree, htree⟩ := h
  obtain ⟨children, hchildren⟩ := htree.exists_of_alike hgrammar hfront hback
  obtain ⟨rule, below, -, -, rfl⟩ := hchildren.of_rule
  exact ⟨hne, _, hchildren⟩

/-- Places inside a match are passed over. -/
theorem findFrom_chartBehind_append (front region back : Text) :
    (grammar.chartBehind front (region ++ back)).findFrom (Text.size (front ++ region)) =
      grammar.matchesFrom (front ++ region) back := by
  induction region generalizing front with
  | nil => simp [matchesFrom]
  | cons c rest ih =>
    have hlt : Text.size front < Text.size (front ++ c :: rest) := by
      have hc := Char.utf8Size_pos c
      rw [Text.size_append, Text.size_cons]
      omega
    have hrest := ih (front ++ [c])
    rw [List.append_assoc, List.singleton_append] at hrest
    rw [← hrest, List.cons_append, findFrom_cons_of_lt hlt]

namespace Compiled

/-- What the longest match at a place is. -/
theorem matches_of_longest? (h : grammar.Compiled) {tree : ParseTree} {stop : Nat}
    (hlongest : (grammar.chartBehind front back).longest? = some (tree, stop)) :
    ∃ region rest, back = region ++ rest ∧ stop = Text.size (front ++ region) ∧ region ≠ [] ∧
      grammar.Reads (.expr (.call (.rule 0))) front region rest [some tree] := by
  have hfound := (h.longest?_eq_some_iff (Text.isBoundary_size_append front back)).1
    (by rwa [seek_chart])
  have hlt := hfound.lt
  obtain ⟨region, rest, rfl, rfl⟩ := hfound.isBoundary_stop.exists_append (Nat.le_of_lt hlt)
  refine ⟨region, rest, rfl, rfl, ?_, hfound.derives⟩
  rintro rfl
  simp at hlt

/-- Where something matches there is a longest match. -/
theorem longest?_of_matches (h : grammar.Compiled) (hmatches : grammar.Matches front region back)
    (hlongest : ∀ other rest, region ++ back = other ++ rest → grammar.Matches front other rest →
      Text.size other ≤ Text.size region) :
    ∃ tree, (grammar.chartBehind front (region ++ back)).longest? =
        some (tree, Text.size (front ++ region)) ∧
      grammar.Reads (.expr (.call (.rule 0))) front region back [some tree] := by
  obtain ⟨hne, tree, htree⟩ := hmatches
  have hstart := Text.isBoundary_size_append front (region ++ back)
  have hlt : Text.size front < Text.size (front ++ region) := by
    have hpos := Nat.pos_of_ne_zero (mt Text.size_eq_zero_iff.1 hne)
    rw [Text.size_append]
    omega
  obtain ⟨stop, found, hfound⟩ := h.exists_longest hstart hlt htree
  have hfound? := (h.longest?_eq_some_iff hstart).2 hfound
  rw [seek_chart] at hfound?
  -- The longest match is itself a match of some region.
  obtain ⟨other, rest, hcut, hstop, hother, hreads⟩ := h.matches_of_longest? hfound?
  have hle := hlongest other rest hcut ⟨hother, found, hreads⟩
  have hge := hfound.le _ tree htree
  rw [hstop, Text.size_append, Text.size_append] at hge
  obtain ⟨rfl, rfl⟩ := Text.eq_of_append_eq_append hcut
    (Nat.le_antisymm (Nat.le_of_add_le_add_left hge) hle)
  exact ⟨found, hstop ▸ hfound?, hreads⟩

/-- Where nothing matches, the search goes on at the next character. -/
theorem matchesFrom_of_not_matches (h : grammar.Compiled) {c : Char}
    (hnone : ∀ region rest, c :: back = region ++ rest → ¬grammar.Matches front region rest) :
    grammar.matchesFrom front (c :: back) = grammar.matchesFrom (front ++ [c]) back := by
  have hlongest : (grammar.chartBehind front (c :: back)).longest? = none := by
    cases hlongest : (grammar.chartBehind front (c :: back)).longest? with
    | none => rfl
    | some found =>
      obtain ⟨tree, stop⟩ := found
      obtain ⟨region, rest, hcut, -, hne, hreads⟩ := h.matches_of_longest? hlongest
      exact absurd ⟨hne, tree, hreads⟩ (hnone region rest hcut)
  rw [matchesFrom, findFrom_cons_of_longest?_eq_none (Nat.le_refl _) hlongest]
  exact findFrom_chartBehind_of_le (by simp)

/-- Where something matches, the longest match is found and the search goes on behind it. -/
theorem exists_matchesFrom_eq_cons (h : grammar.Compiled)
    (hmatches : grammar.Matches front region back)
    (hlongest : ∀ other rest, region ++ back = other ++ rest → grammar.Matches front other rest →
      Text.size other ≤ Text.size region) :
    ∃ tree, grammar.Reads (.expr (.call (.rule 0))) front region back [some tree] ∧
      grammar.matchesFrom front (region ++ back) =
        tree :: grammar.matchesFrom (front ++ region) back := by
  obtain ⟨tree, htree, hreads⟩ := h.longest?_of_matches hmatches hlongest
  refine ⟨tree, hreads, ?_⟩
  obtain ⟨c, rest, rfl⟩ := List.exists_cons_of_ne_nil hmatches.1
  have hlt : Text.size front < Text.size (front ++ c :: rest) := by
    have hc := Char.utf8Size_pos c
    rw [Text.size_append, Text.size_cons]
    omega
  rw [← findFrom_chartBehind_append]
  rw [List.cons_append] at htree ⊢
  rw [matchesFrom, findFrom_cons_of_longest?_eq_some (Nat.le_refl _) htree,
    findFrom_cons_of_lt hlt]

end Compiled

/-- Where something matches there is a match that no other one exceeds. -/
theorem Matches.exists_longest (h : grammar.Matches front region back) :
    ∃ longest rest, region ++ back = longest ++ rest ∧ grammar.Matches front longest rest ∧
      ∀ other rest', longest ++ rest = other ++ rest' → grammar.Matches front other rest' →
        Text.size other ≤ Text.size longest := by
  induction hleft : Text.size back using Nat.strongRecOn generalizing region back with
  | ind left ih =>
    by_cases hlonger : ∃ other rest, region ++ back = other ++ rest ∧
      grammar.Matches front other rest ∧ Text.size region < Text.size other
    · obtain ⟨other, rest, hcut, hother, hlt⟩ := hlonger
      have hsize := congrArg Text.size hcut
      rw [Text.size_append, Text.size_append] at hsize
      rw [hcut]
      exact ih (Text.size rest) (by omega) hother rfl
    · refine ⟨region, back, rfl, h, fun other rest hcut hother => ?_⟩
      exact Nat.le_of_not_lt fun hlt => hlonger ⟨other, rest, hcut, hother, hlt⟩

/-- A property holds at all places of a scan if it holds at the end of the text and is handed on,
from the next character to a place where nothing matches, and from behind a match to where it
begins. -/
@[elab_as_elim]
theorem Compiled.sweep (h : grammar.Compiled) {motive : Text → Text → Prop}
    (nil : ∀ front, motive front [])
    (skip : ∀ front c rest,
      (∀ region behind, c :: rest = region ++ behind → ¬grammar.Matches front region behind) →
      grammar.matchesFrom front (c :: rest) = grammar.matchesFrom (front ++ [c]) rest →
      motive (front ++ [c]) rest → motive front (c :: rest))
    (found : ∀ front region rest tree,
      grammar.Reads (.expr (.call (.rule 0))) front region rest [some tree] →
      grammar.matchesFrom front (region ++ rest) =
        tree :: grammar.matchesFrom (front ++ region) rest →
      motive (front ++ region) rest → motive front (region ++ rest))
    (front back : Text) : motive front back := by
  -- A match takes many characters at once, so the induction is on the length of what is left.
  induction hlength : back.length using Nat.strongRecOn generalizing front back with
  | ind length ih =>
    by_cases hmatches : ∃ region behind, back = region ++ behind ∧
      grammar.Matches front region behind
    · obtain ⟨region, behind, rfl, hmatches⟩ := hmatches
      obtain ⟨longest, rest, hcut, hmatches, hlongest⟩ := hmatches.exists_longest
      obtain ⟨tree, htree, heq⟩ := h.exists_matchesFrom_eq_cons hmatches hlongest
      rw [hcut] at hlength ⊢
      refine found front longest rest tree htree heq (ih rest.length ?_ _ rest rfl)
      have hpos := List.length_pos_iff.2 hmatches.1
      rw [← hlength, List.length_append]
      omega
    · cases back with
      | nil => exact nil front
      | cons c rest =>
        have hnone : ∀ region behind, c :: rest = region ++ behind →
            ¬grammar.Matches front region behind :=
          fun region behind hcut hmatch => hmatches ⟨region, behind, hcut, hmatch⟩
        refine skip front c rest hnone (h.matchesFrom_of_not_matches hnone) ?_
        exact ih rest.length (by rw [← hlength, List.length_cons]; omega) _ rest rfl

/-- Every tree that is found is read off a region of the text. -/
theorem Compiled.exists_reads_of_mem (h : grammar.Compiled) {front back : Text} {tree : ParseTree}
    (hmem : tree ∈ grammar.matchesFrom front back) : ∃ ahead region rest,
      front ++ back = ahead ++ (region ++ rest) ∧
      grammar.Reads (.expr (.call (.rule 0))) ahead region rest [some tree] := by
  induction front, back using h.sweep with
  | nil front =>
    rw [matchesFrom_nil] at hmem
    cases hmem
  | skip front c rest _ heq ih => simpa using ih (heq ▸ hmem)
  | found front region rest found hfound heq ih =>
    rw [heq] at hmem
    rcases List.mem_cons.1 hmem with rfl | hmem
    · exact ⟨front, region, rest, rfl, hfound⟩
    · simpa using ih hmem

end Grammar

end Retrace
