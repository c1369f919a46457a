import Retrace.Proofs.Grammar.Longest
import Retrace.Proofs.Text.Span

/-!
# Leftmost longest matches

What is found in a text is what a scan from its start finds: where something can be read the longest
match is taken and the scan goes on where it ends, elsewhere it goes on behind the next character.
A text has one scan, so everything about the matches that are found follows from the three ways in
which a scan goes on: they are not empty and do not overlap, none could have been longer, and
nothing could have been read at a place outside of them.

## Main definitions

* `Grammar.matchesFrom`: what is found from a place on;
* `Grammar.Scans`: the scan of a text.

## Main results

* `Grammar.Compiled.exists_scans_findAll`: what is found in a text is what a scan finds;
* `Grammar.Scans.unique`: there is no other scan;
* `Grammar.findAll_of_compile`: what this says about the matches that are found.
-/

namespace Retrace.Grammar

variable {grammar : Grammar} {text front back : Text}

/-! ## The search from a place on -/

/-- What is found from the place between two parts of a text on. -/
def matchesFrom (grammar : Grammar) (front back : Text) : List ParseTree :=
  (grammar.chartBehind front back).findFrom (Text.size front)

theorem findAll_eq (text : Text) : grammar.findAll text = grammar.matchesFrom [] text := by
  rw [findAll, chart_eq]
  rfl

@[simp] theorem matchesFrom_nil (front : Text) : grammar.matchesFrom front [] = [] := by
  rw [matchesFrom, chartBehind, Chart.findFrom, Row.cursor_ofCursor]
  simp [Cursor.behind]

section Cons

variable {c : Char} {resume : Nat}

/-- Places ahead of where the search is resumed are passed over. -/
theorem findFrom_cons_of_lt (h : Text.size front < resume) :
    (grammar.chartBehind front (c :: back)).findFrom resume =
      (grammar.chartBehind (front ++ [c]) back).findFrom resume := by
  rw [chartBehind, Chart.findFrom, Row.cursor_ofCursor]
  exact if_pos h

/-- Where there is no match the search goes on at the next character. -/
theorem findFrom_cons_of_longest?_eq_none (h : resume ≤ Text.size front)
    (hnone : (grammar.chartBehind front (c :: back)).longest? = none) :
    (grammar.chartBehind front (c :: back)).findFrom resume =
      (grammar.chartBehind (front ++ [c]) back).findFrom resume := by
  rw [chartBehind] at hnone ⊢
  rw [Chart.findFrom, Row.cursor_ofCursor, hnone]
  exact if_neg (Nat.not_lt_of_le h)

/-- Where there is a match it is found, and the search is resumed behind it. -/
theorem findFrom_cons_of_longest?_eq_some {tree : ParseTree} {stop : Nat}
    (h : resume ≤ Text.size front)
    (hsome : (grammar.chartBehind front (c :: back)).longest? = some (tree, stop)) :
    (grammar.chartBehind front (c :: back)).findFrom resume =
      tree :: (grammar.chartBehind (front ++ [c]) back).findFrom stop := by
  rw [chartBehind] at hsome ⊢
  rw [Chart.findFrom, Row.cursor_ofCursor, hsome]
  exact if_neg (Nat.not_lt_of_le h)

end Cons

/-- It does not matter how far ahead of a place the search may begin. -/
theorem findFrom_chartBehind_of_le {resume : Nat} (h : resume ≤ Text.size front) :
    (grammar.chartBehind front back).findFrom resume = grammar.matchesFrom front back := by
  unfold matchesFrom
  induction back generalizing front resume with
  | nil =>
    rw [chartBehind, Chart.findFrom, Chart.findFrom, Row.cursor_ofCursor]
    simp [Cursor.behind, Chart.findFrom]
  | cons c rest ih =>
    have hbehind : Text.size front ≤ Text.size (front ++ [c]) := by simp
    cases hlongest : (grammar.chartBehind front (c :: rest)).longest? with
    | none =>
      rw [findFrom_cons_of_longest?_eq_none h hlongest,
        findFrom_cons_of_longest?_eq_none (Nat.le_refl _) hlongest, ih (Nat.le_trans h hbehind),
        ih hbehind]
    | some found =>
      rw [findFrom_cons_of_longest?_eq_some h hlongest,
        findFrom_cons_of_longest?_eq_some (Nat.le_refl _) hlongest]

/-! ## The scan of a text -/

/-- A match in a text. -/
structure Match where
  /-- From where the match was tried up to where it ends. -/
  span : Span
  /-- The tree of the match. -/
  tree : ParseTree

/-- The scan of a text from an offset on. At the end of the text it is over; where something is read
the longest match is taken and the scan goes on where it ends; where nothing is read the scan goes
on behind the next character. -/
inductive Scans (grammar : Grammar) (text : Text) : (start : Nat) → List Match → Prop
  | done : Scans grammar text (Text.size text) []
  | found {start stop : Nat} {tree : ParseTree} {later : List Match} :
      grammar.Longest text start stop tree → Scans grammar text stop later →
      Scans grammar text start (⟨⟨start, stop⟩, tree⟩ :: later)
  | next {front back : Text} {c : Char} {start : Nat} {later : List Match} :
      text = front ++ c :: back → Text.size front = start → grammar.ReadsNothing text start →
      Scans grammar text (start + c.utf8Size) later → Scans grammar text start later

namespace Scans

variable {start : Nat} {found : List Match}

/-- A scan visits boundaries of the text. -/
theorem isBoundary (h : grammar.Scans text start found) : text.IsBoundary start := by
  cases h with
  | done => exact text.isBoundary_size
  | found hlongest _ => exact hlongest.isBoundary
  | next htext hstart _ _ => exact Text.isBoundary_iff.2 ⟨_, _, htext, hstart⟩

/-- There is one scan from an offset on. -/
theorem unique {other : List Match} (h : grammar.Scans text start found)
    (h' : grammar.Scans text start other) : found = other := by
  have hend {front back : Text} {c : Char} (htext : text = front ++ c :: back) :
      Text.size front ≠ Text.size text := by
    have hc := Char.utf8Size_pos c
    rw [htext, Text.size_append, Text.size_cons]
    omega
  -- A scan is over at the end of the text, and elsewhere its step depends on whether something is
  -- read there, so both scans take the same steps.
  induction h generalizing other with
  | done =>
    cases h' with
    | done => rfl
    | found hlongest _ => exact absurd (readsNothing_size grammar text) hlongest.not_readsNothing
    | next htext hstart _ _ => exact absurd hstart (hend htext)
  | found hlongest _ ih =>
    cases h' with
    | done => exact absurd (readsNothing_size grammar text) hlongest.not_readsNothing
    | found hlongest' hlater =>
      obtain ⟨rfl, rfl⟩ := hlongest.unique hlongest'
      rw [ih hlater]
    | next _ _ hnothing _ => exact absurd hnothing hlongest.not_readsNothing
  | next htext hstart hnothing _ ih =>
    cases h' with
    | done => exact absurd hstart (hend htext)
    | found hlongest _ => exact absurd hnothing hlongest.not_readsNothing
    | next htext' hstart' _ hlater =>
      obtain ⟨-, hback⟩ :=
        Text.eq_of_append_eq_append (htext.symm.trans htext') (hstart.trans hstart'.symm)
      obtain ⟨rfl, -⟩ := List.cons.inj hback
      exact ih hlater

/-- Where there is a longest match, it is the first one. -/
theorem head?_eq_some {stop : Nat} {tree : ParseTree} (h : grammar.Scans text start found)
    (hlongest : grammar.Longest text start stop tree) :
    found.head? = some ⟨⟨start, stop⟩, tree⟩ := by
  cases h with
  | done => exact absurd (readsNothing_size grammar text) hlongest.not_readsNothing
  | found hlongest' _ =>
    obtain ⟨rfl, rfl⟩ := hlongest.unique hlongest'
    rfl
  | next _ _ hnothing _ => exact absurd hnothing hlongest.not_readsNothing

/-- There are no more matches than there are bytes left. -/
theorem add_length_le (h : grammar.Scans text start found) :
    start + found.length ≤ Text.size text := by
  induction h with
  | done => exact Nat.le_refl _
  | found hlongest _ ih =>
    have hlt := hlongest.lt
    rw [List.length_cons]
    omega
  | next _ _ _ _ ih => omega

/-- Every match is a longest one, and none starts ahead of the scan. -/
theorem longest (h : grammar.Scans text start found) : ∀ m ∈ found, start ≤ m.span.start ∧
    grammar.Longest text m.span.start m.span.stop m.tree := by
  induction h with
  | done => exact nofun
  | found hlongest _ ih =>
    refine List.forall_mem_cons.2 ⟨⟨Nat.le_refl _, hlongest⟩, fun m hm => ?_⟩
    obtain ⟨hle, hlater⟩ := ih m hm
    exact ⟨Nat.le_trans (Nat.le_of_lt hlongest.lt) hle, hlater⟩
  | next _ _ _ _ ih =>
    intro m hm
    obtain ⟨hle, hlater⟩ := ih m hm
    exact ⟨Nat.le_trans (Nat.le_add_right ..) hle, hlater⟩

/-- Matches lie in the text, one behind the other. -/
theorem ascending (h : grammar.Scans text start found) :
    Span.Ascending text (found.map Match.span) := by
  induction h with
  | done => exact .nil text
  | @found start stop tree later hlongest hlater ih =>
    have hwithin : (⟨start, stop⟩ : Span).Within text 0 (Text.size text) :=
      ⟨Nat.zero_le _, Nat.le_of_lt hlongest.lt, hlongest.isBoundary_stop.le_size,
        hlongest.isBoundary, hlongest.isBoundary_stop⟩
    rw [List.map_cons, Span.Ascending.cons_iff, List.forall_mem_map]
    exact ⟨hwithin, fun m hm => (hlater.longest m hm).1, ih⟩
  | next _ _ _ _ ih => exact ih

/-- Nothing is read at a place outside of all matches. -/
theorem readsNothing (h : grammar.Scans text start found) {offset : Nat}
    (hoffset : text.IsBoundary offset) (hle : start ≤ offset)
    (houtside : ∀ m ∈ found, offset < m.span.start ∨ m.span.stop ≤ offset) :
    grammar.ReadsNothing text offset := by
  induction h with
  | done =>
    obtain rfl := Nat.le_antisymm hle hoffset.le_size
    exact readsNothing_size grammar text
  | found _ _ ih =>
    obtain ⟨hhere, hlater⟩ := List.forall_mem_cons.1 houtside
    -- The place is not ahead of the match, so it is behind it.
    exact ih (hhere.resolve_left (Nat.not_lt_of_le hle)) hlater
  | next htext hstart hnothing _ ih =>
    rw [htext] at hoffset
    rcases hoffset.le_or_le with hhere | hbehind
    · rw [hstart] at hhere
      rwa [Nat.le_antisymm hhere hle]
    · rw [hstart] at hbehind
      exact ih hbehind houtside

end Scans

namespace Compiled

/-- If the search agrees with a scan from wherever it is resumed behind a character, it agrees with
one from the place in front of this character. -/
theorem exists_scans_matchesFrom_cons (h : grammar.Compiled) {c : Char}
    (hlater : ∀ {resume : Nat}, (front ++ c :: back).IsBoundary resume →
      Text.size front + c.utf8Size ≤ resume →
      ∃ found, grammar.Scans (front ++ c :: back) resume found ∧
        (grammar.chartBehind (front ++ [c]) back).findFrom resume = found.map Match.tree) :
    ∃ found, grammar.Scans (front ++ c :: back) (Text.size front) found ∧
      grammar.matchesFrom front (c :: back) = found.map Match.tree := by
  have hstart := Text.isBoundary_size_append front (c :: back)
  cases hfound : (grammar.chartBehind front (c :: back)).longest? with
  | some found =>
    obtain ⟨tree, stop⟩ := found
    have hlongest := (h.longest?_eq_some_iff hstart).1 (by rwa [seek_chart])
    have hstop := hlongest.isBoundary_stop
    -- A match that reads something ends behind the character.
    have hbehind := hstop.le_or_le.resolve_left (Nat.not_le_of_lt hlongest.lt)
    obtain ⟨later, hscans, hfindFrom⟩ := hlater hstop hbehind
    refine ⟨⟨⟨Text.size front, stop⟩, tree⟩ :: later, .found hlongest hscans, ?_⟩
    rw [matchesFrom, findFrom_cons_of_longest?_eq_some (Nat.le_refl _) hfound, hfindFrom,
      List.map_cons]
  | none =>
    have hnothing := (h.longest?_eq_none_iff hstart).1 (by rwa [seek_chart])
    have hsize : Text.size (front ++ [c]) = Text.size front + c.utf8Size := by simp
    have hnext : (front ++ c :: back).IsBoundary (Text.size front + c.utf8Size) :=
      Text.isBoundary_iff.2 ⟨front ++ [c], back, by simp, hsize⟩
    obtain ⟨later, hscans, hfindFrom⟩ := hlater hnext (Nat.le_refl _)
    refine ⟨later, .next rfl rfl hnothing hscans, ?_⟩
    -- It makes no difference that the search is resumed ahead of the next character.
    rw [matchesFrom, findFrom_cons_of_longest?_eq_none (Nat.le_refl _) hfound, ← hfindFrom,
      findFrom_chartBehind_of_le (Nat.le_of_eq hsize.symm),
      findFrom_chartBehind_of_le (hsize ▸ Nat.le_add_right ..)]

/-- What is found from a place on is what a scan finds that begins where the search is resumed. -/
theorem exists_scans_findFrom (h : grammar.Compiled) (front back : Text) {resume : Nat}
    (hresume : (front ++ back).IsBoundary resume) (hle : Text.size front ≤ resume) :
    ∃ found, grammar.Scans (front ++ back) resume found ∧
      (grammar.chartBehind front back).findFrom resume = found.map Match.tree := by
  induction back generalizing front resume with
  | nil =>
    have hsize := hresume.le_size
    rw [List.append_nil] at hsize ⊢
    obtain rfl := Nat.le_antisymm hle hsize
    exact ⟨[], .done, matchesFrom_nil front⟩
  | cons c rest ih =>
    have hlater {resume : Nat} (hresume : (front ++ c :: rest).IsBoundary resume)
        (hle : Text.size front + c.utf8Size ≤ resume) :
        ∃ found, grammar.Scans (front ++ c :: rest) resume found ∧
          (grammar.chartBehind (front ++ [c]) rest).findFrom resume = found.map Match.tree := by
      have hih := @ih (front ++ [c]) resume
      rw [List.append_assoc, List.singleton_append] at hih
      exact hih hresume (by simpa [Text.size_append] using hle)
    rcases hresume.le_or_le with hhere | hbehind
    · obtain rfl := Nat.le_antisymm hle hhere
      exact h.exists_scans_matchesFrom_cons hlater
    · -- The place lies inside the latest match and is passed over.
      obtain ⟨found, hscans, hfindFrom⟩ := hlater hresume hbehind
      have hc := Char.utf8Size_pos c
      exact ⟨found, hscans, by rw [findFrom_cons_of_lt (by omega), hfindFrom]⟩

/-- What is found in a text is what a scan of it finds. -/
theorem exists_scans_findAll (h : grammar.Compiled) (text : Text) :
    ∃ found, grammar.Scans text 0 found ∧ grammar.findAll text = found.map Match.tree := by
  rw [findAll, chart_eq]
  exact h.exists_scans_findFrom [] text text.isBoundary_zero (Nat.le_refl _)

end Compiled

/-- For every compiled grammar and every text, what is found in the text are the trees of the one
scan of it. There are not more of them than there are bytes; each match is the longest from where it
starts; the matches do not overlap; and at a place outside of all of them nothing could have been
read. -/
theorem findAll_of_compile {description : Text} {grammar : Grammar}
    (h : compile description = .ok grammar) (text : Text) :
    ∃ found, grammar.findAll text = found.map Match.tree ∧ grammar.Scans text 0 found ∧
      (∀ other, grammar.Scans text 0 other → other = found) ∧
      found.length ≤ Text.size text ∧
      (∀ m ∈ found, grammar.Longest text m.span.start m.span.stop m.tree) ∧
      Span.Ascending text (found.map Match.span) ∧
      ∀ start, text.IsBoundary start →
        (∀ m ∈ found, start < m.span.start ∨ m.span.stop ≤ start) →
        ∀ stop tree, grammar.Derives text 0 start stop tree → stop ≤ start := by
  obtain ⟨found, hscans, hfindAll⟩ := (compiled_of_compile h).exists_scans_findAll text
  refine ⟨found, hfindAll, hscans, fun other hother => hother.unique hscans, ?_,
    fun m hm => (hscans.longest m hm).2, hscans.ascending, fun start hstart houtside => ?_⟩
  · simpa using hscans.add_length_le
  · exact hscans.readsNothing hstart (Nat.zero_le _) houtside

/-- Two signs, one of which is the beginning of the other. -/
def signs : Text := "s = \"<\" | \"<\" \"=\";".toList

/-- The scan passes over a character of two bytes and over no sign. -/
theorem findAll_of_compile_signs :
    ∃ grammar found, compile signs = .ok grammar ∧
      grammar.findAll ['é', '<', '=', ' ', '<'] = found.map Match.tree ∧
      grammar.Scans ['é', '<', '=', ' ', '<'] 0 found ∧ found.length = 2 := by
  have hmatches : (compile signs).toOption.any (fun grammar =>
      (grammar.findAll ['é', '<', '=', ' ', '<']).length = 2) = true := by
    decide +kernel
  obtain ⟨grammar, hgrammar, hlength⟩ := (Option.any_eq_true ..).1 hmatches
  have hcompile := Except.toOption_eq_some.1 hgrammar
  obtain ⟨found, hfindAll, hscans, -⟩ := findAll_of_compile hcompile ['é', '<', '=', ' ', '<']
  refine ⟨grammar, found, hcompile, hfindAll, hscans, ?_⟩
  rwa [hfindAll, List.length_map, decide_eq_true_eq] at hlength

end Retrace.Grammar
