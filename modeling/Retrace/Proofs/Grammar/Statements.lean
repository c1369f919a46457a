import Retrace.Proofs.Grammar.Sweep

/-!
# Searching a text statement by statement

Declarations are separated by semicolons. If every match of a grammar goes up to the next semicolon,
then no match reaches from one statement into another, and what is found in a text is what is found
in its statements one after the other (`Statements.foundIn_append`). Inside one statement there is
at most one match, because all of them end at the same place (`Statements.foundIn_statement`).

## Main definitions

* `Grammar.Statements`: every match goes up to the next semicolon;
* `Grammar.foundIn`: what is read off the matches in a text.
-/

namespace Retrace

/-- A property of texts holds if it holds of texts without a semicolon and is handed on when a
statement is put in front of a text. -/
@[elab_as_elim]
theorem Text.statements {motive : Text → Prop} (rest : ∀ rest, ';' ∉ rest → motive rest)
    (statement : ∀ body back, ';' ∉ body → motive back → motive (body ++ ';' :: back))
    (text : Text) : motive text := by
  induction hlength : text.length using Nat.strongRecOn generalizing text with
  | ind length ih =>
    by_cases hmem : ';' ∈ text
    · obtain ⟨body, back, rfl, hbody⟩ := List.eq_append_cons_of_mem hmem
      refine statement body back hbody (ih back.length ?_ back rfl)
      rw [← hlength, List.length_append, List.length_cons]
      omega
    · exact rest text hmem

namespace Grammar

variable {grammar : Grammar} {front region back : Text} {children : List (Option ParseTree)}

namespace Reads

/-- Items that are listed in two parts are read one part after the other. -/
theorem of_items_append {items later : List Production}
    (h : grammar.Reads (.items (items ++ later)) front region back children) :
    ∃ ahead behind here there, region = ahead ++ behind ∧ children = here ++ there ∧
      grammar.Reads (.items items) front ahead (behind ++ back) here ∧
      grammar.Reads (.items later) (front ++ ahead) behind back there := by
  induction items generalizing front region children with
  | nil =>
    refine ⟨[], region, [], children, rfl, rfl, ?_, by simpa using h⟩
    rw [Reads, List.append_nil]
    exact .noItem _
  | cons first items ih =>
    obtain ⟨ahead, behind, here, there, rfl, rfl, hahead, hbehind⟩ := of_item h
    obtain ⟨ahead', behind', here', there', rfl, rfl, hahead', hbehind'⟩ := ih hbehind
    refine ⟨ahead ++ ahead', behind', here ++ here', there', by simp, by simp, ?_, ?_⟩
    · rw [List.append_assoc] at hahead
      exact append .item hahead hahead'
    · rwa [← List.append_assoc]

/-- Two lists of items that are read one after the other are read as one. -/
theorem items_append {items later : List Production} {ahead behind : Text}
    {here there : List (Option ParseTree)}
    (hahead : grammar.Reads (.items items) front ahead (behind ++ back) here)
    (hbehind : grammar.Reads (.items later) (front ++ ahead) behind back there) :
    grammar.Reads (.items (items ++ later)) front (ahead ++ behind) back (here ++ there) := by
  induction items generalizing front ahead here with
  | nil =>
    obtain ⟨rfl, rfl⟩ := of_noItem hahead
    simpa using hbehind
  | cons first items ih =>
    obtain ⟨ahead', behind', here', there', rfl, rfl, hfirst, hlater⟩ := of_item hahead
    rw [← List.append_assoc] at hbehind
    have hrest := ih hlater hbehind
    rw [← List.append_assoc] at hfirst
    rw [List.append_assoc, List.append_assoc]
    exact append .item hfirst hrest

/-- A semicolon is read in front of any text. -/
theorem semicolon_behind (hgrammar : grammar.Basic)
    (h : grammar.Reads (.expr (.literal [';'])) front region back children) (back' : Text) :
    grammar.Reads (.expr (.literal [';'])) front region back' children := by
  obtain ⟨gap, rfl, hstands, rfl⟩ := h.of_literal
  have hname : Text.isNameChar ';' = false := by decide +kernel
  rw [Reads]
  refine Yields.literal ⟨by rw [List.append_assoc], ?_, ?_⟩
  · have hgap := hstands.length_gap
    rw [hgrammar.skip_eq, Shape.getD_length?_blanks] at hgap ⊢
    exact ⟨hgap.1, hgap.2.congr rfl⟩
  · rintro (hjoined | hjoined)
    · simp [hname] at hjoined
    · simp [hname] at hjoined

end Reads

/-- What is read off the matches from the place between two parts of a text on. -/
def foundFrom {α : Type} (grammar : Grammar) (read : ParseTree → Option α) (front back : Text) :
    List α :=
  (grammar.matchesFrom front back).filterMap read

/-- What is read off the matches in a text. -/
def foundIn {α : Type} (grammar : Grammar) (read : ParseTree → Option α) (text : Text) : List α :=
  (grammar.findAll text).filterMap read

/-- The matches of a grammar go up to the next semicolon, and what is read off one depends on the
region that is matched and on where it lies, with `shift` for a region that lies further behind. -/
structure Statements {α : Type} (grammar : Grammar) (read : ParseTree → Option α)
    (shift : Nat → α → α) : Prop where
  /-- The grammar was compiled. -/
  compiled : grammar.Compiled
  /-- No pattern is used. -/
  basic : grammar.Basic
  /-- The top rule ends with a semicolon. -/
  exists_top : ∃ rule items, grammar.rules[0]? = some rule ∧
    rule.body = .seq (items ++ [.literal [';']])
  /-- There is no other semicolon in a match. -/
  ends : ∀ {front region back}, grammar.Matches front region back →
    ∃ body, region = body ++ [';'] ∧ ';' ∉ body
  /-- What is read off a match is known from the region. -/
  read_eq : ∀ {front region back front' back' tree tree' offset},
    grammar.Reads (.expr (.call (.rule 0))) front region back [some tree] →
    grammar.Reads (.expr (.call (.rule 0))) front' region back' [some tree'] →
    Text.size front' = offset + Text.size front → read tree' = (read tree).map (shift offset)

namespace Statements

variable {α : Type} {read : ParseTree → Option α} {shift : Nat → α → α} {body : Text}

/-- A match stays one whatever follows it. -/
theorem matches_behind (h : grammar.Statements read shift)
    (hmatches : grammar.Matches front region back) (back' : Text) :
    grammar.Matches front region back' := by
  obtain ⟨hne, tree, htree⟩ := hmatches
  obtain ⟨rule, items, hrule, hbody⟩ := h.exists_top
  obtain ⟨rule', below, hrule', hreads, -⟩ := htree.of_rule
  obtain rfl := Option.some.inj (hrule.symm.trans hrule')
  rw [hbody] at hreads
  obtain ⟨ahead, behind, here, there, rfl, -, hahead, hbehind⟩ := hreads.of_seq.of_items_append
  obtain ⟨last, none, here', there', rfl, rfl, hlast, hnone⟩ := hbehind.of_item
  obtain ⟨rfl, rfl⟩ := hnone.of_noItem
  rw [List.append_nil] at hahead hne ⊢
  -- The last item is read as before, so the items ahead of it see the same text behind them.
  have hlast' := hlast.semicolon_behind h.basic back'
  have hhead : (last ++ back').head? = (last ++ back).head? := by
    obtain ⟨gap, rfl, -, -⟩ := hlast.of_literal
    cases gap <;> rfl
  obtain ⟨here'', hahead'⟩ := hahead.exists_of_alike h.basic Iff.rfl hhead
  have hnone' : grammar.Reads (.items []) (front ++ ahead ++ last) [] back' [] := by
    rw [Reads, List.append_nil]
    exact .noItem _
  have hitems : grammar.Reads (.items [.literal [';']]) (front ++ ahead) last back'
      (here' ++ []) := by
    simpa using Reads.append .item hlast' hnone'
  have hrulebody : grammar.Reads (.expr rule.body) front (ahead ++ last) back'
      (here'' ++ (here' ++ [])) := by
    rw [hbody]
    exact .seq (Reads.items_append hahead' hitems)
  exact ⟨hne, _, Yields.rule hrule hrulebody⟩

/-- All matches in a statement end where the statement ends. -/
theorem eq_of_append (h : grammar.Statements read shift) (hbody : ';' ∉ body)
    (hmatches : grammar.Matches front region back) {rest : Text}
    (hcut : body ++ ';' :: rest = region ++ back) : region = body ++ [';'] ∧ back = rest := by
  obtain ⟨body', rfl, hbody'⟩ := h.ends hmatches
  rw [List.append_assoc, List.singleton_append] at hcut
  obtain ⟨rfl, rfl⟩ := Text.append_cons_inj hbody hbody' hcut
  exact ⟨rfl, rfl⟩

/-- Where there is a match, one thing at most is read off it, and the search goes on behind it. -/
theorem foundFrom_of_matches (h : grammar.Statements read shift)
    (hmatches : grammar.Matches front region back) :
    ∃ tree, grammar.Reads (.expr (.call (.rule 0))) front region back [some tree] ∧
      grammar.foundFrom read front (region ++ back) =
        (read tree).toList ++ grammar.foundFrom read (front ++ region) back := by
  obtain ⟨tree, hreads, hfound⟩ := h.compiled.exists_matchesFrom_eq_cons hmatches
    fun other rest hcut hother => by
      obtain ⟨body, rfl, hbody⟩ := h.ends hmatches
      rw [List.append_assoc, List.singleton_append] at hcut
      rw [(h.eq_of_append hbody hother hcut).1]
  refine ⟨tree, hreads, ?_⟩
  unfold foundFrom
  rw [hfound, List.filterMap_cons]
  cases read tree <;> rfl

/-- Where there is no match, the search goes on at the next character. -/
theorem foundFrom_of_not_matches (h : grammar.Statements read shift) {c : Char}
    (hnone : ∀ region rest, c :: back = region ++ rest → ¬grammar.Matches front region rest) :
    grammar.foundFrom read front (c :: back) = grammar.foundFrom read (front ++ [c]) back := by
  unfold foundFrom
  rw [h.compiled.matchesFrom_of_not_matches hnone]

/-- Nothing is found without a semicolon. -/
theorem foundFrom_eq_nil (h : grammar.Statements read shift) (hback : ';' ∉ back) :
    grammar.foundFrom read front back = [] := by
  induction back generalizing front with
  | nil => simp [foundFrom]
  | cons c rest ih =>
    rw [h.foundFrom_of_not_matches]
    · exact ih fun hmem => hback (List.mem_cons_of_mem _ hmem)
    · intro region later hcut hmatches
      obtain ⟨body, rfl, -⟩ := h.ends hmatches
      exact hback (by simp [hcut])

/-- What is found from a place on is found in any other text that goes on in the same way. -/
theorem foundFrom_shift (h : grammar.Statements read shift) {front' : Text} {offset : Nat}
    (hfront : Text.Joined front' back ↔ Text.Joined front back)
    (hsize : Text.size front' = offset + Text.size front) :
    grammar.foundFrom read front' back =
      (grammar.foundFrom read front back).map (shift offset) := by
  -- A match takes many characters at once, so the induction is on the length of what is left.
  induction hlength : back.length using Nat.strongRecOn generalizing front front' back with
  | ind length ih =>
    cases back with
    | nil => simp [foundFrom]
    | cons c rest =>
      -- Matches depend on the neighbouring characters only, which are alike in both texts.
      by_cases hexists : ∃ region later, c :: rest = region ++ later ∧
        grammar.Matches front region later
      · obtain ⟨region, later, hcut, hmatches⟩ := hexists
        have hlt : later.length < length := by
          have hpos := List.length_pos_iff.2 hmatches.1
          rw [← hlength, hcut, List.length_append]
          omega
        rw [hcut] at hfront ⊢
        obtain ⟨tree, htree, hfound⟩ := h.foundFrom_of_matches hmatches
        obtain ⟨tree', htree', hfound'⟩ :=
          h.foundFrom_of_matches (hmatches.of_alike h.basic hfront rfl)
        have hlater := ih later.length hlt (Reads.joined_append hfront)
          (by simp only [Text.size_append]; omega) rfl
        rw [hfound, hfound', h.read_eq htree htree' hsize, hlater, List.map_append]
        cases read tree <;> rfl
      · have hnone : ∀ region later, c :: rest = region ++ later →
            ¬grammar.Matches front region later :=
          fun region later hcut hmatches => hexists ⟨region, later, hcut, hmatches⟩
        have hnone' : ∀ region later, c :: rest = region ++ later →
            ¬grammar.Matches front' region later := by
          intro region later hcut hmatches
          rw [hcut] at hfront
          exact hnone region later hcut (hmatches.of_alike h.basic hfront.symm rfl)
        have hjoined : Text.Joined (front' ++ [c]) rest ↔ Text.Joined (front ++ [c]) rest :=
          Reads.joined_append hfront
        rw [h.foundFrom_of_not_matches hnone, h.foundFrom_of_not_matches hnone']
        exact ih rest.length (by simp [← hlength]) hjoined
          (by simp only [Text.size_append]; omega) rfl

/-- Where the rest of a statement is no match, there is none whatever follows the statement. -/
theorem not_matches (h : grammar.Statements read shift) (hbody : ';' ∉ body)
    (hnone : ¬grammar.Matches front (body ++ [';']) []) (back : Text) :
    ∀ region rest, body ++ ';' :: back = region ++ rest → ¬grammar.Matches front region rest := by
  intro region rest hcut hmatches
  obtain ⟨rfl, rfl⟩ := h.eq_of_append hbody hmatches hcut
  exact hnone (h.matches_behind hmatches [])

/-- In a statement there is one match, the same whatever follows, or none. -/
theorem foundFrom_statement (h : grammar.Statements read shift) (hbody : ';' ∉ body)
    (front : Text) :
    (∃ ahead region, body ++ [';'] = ahead ++ region ∧ ∀ back,
        ∃ tree, grammar.Reads (.expr (.call (.rule 0))) (front ++ ahead) region back [some tree] ∧
          grammar.foundFrom read front (body ++ ';' :: back) =
            (read tree).toList ++ grammar.foundFrom read (front ++ (body ++ [';'])) back) ∨
      ∀ back, grammar.foundFrom read front (body ++ ';' :: back) =
        grammar.foundFrom read (front ++ (body ++ [';'])) back := by
  induction body generalizing front with
  | nil =>
    by_cases hmatches : grammar.Matches front [';'] []
    · refine Or.inl ⟨[], [';'], rfl, fun back => ?_⟩
      simpa using h.foundFrom_of_matches (h.matches_behind hmatches back)
    · exact Or.inr fun back => h.foundFrom_of_not_matches (h.not_matches hbody hmatches back)
  | cons c body ih =>
    by_cases hmatches : grammar.Matches front (c :: body ++ [';']) []
    · refine Or.inl ⟨[], c :: body ++ [';'], rfl, fun back => ?_⟩
      simpa using h.foundFrom_of_matches (h.matches_behind hmatches back)
    · have hstep (back : Text) : grammar.foundFrom read front (c :: body ++ ';' :: back) =
          grammar.foundFrom read (front ++ [c]) (body ++ ';' :: back) :=
        h.foundFrom_of_not_matches (h.not_matches hbody hmatches back)
      -- The match, if there is one, begins further behind.
      rcases ih (fun hmem => hbody (List.mem_cons_of_mem _ hmem)) (front ++ [c]) with
        ⟨ahead, region, hcut, hfound⟩ | hfound
      · refine Or.inl ⟨c :: ahead, region, by simp [hcut], fun back => ?_⟩
        rw [hstep]
        simpa using hfound back
      · refine Or.inr fun back => ?_
        rw [hstep]
        simpa using hfound back

/-- What is found behind a statement is found in addition to what is found in it. -/
theorem foundFrom_append (h : grammar.Statements read shift) (hbody : ';' ∉ body) :
    grammar.foundFrom read front (body ++ ';' :: back) =
      grammar.foundFrom read front (body ++ [';']) ++
        grammar.foundFrom read (front ++ (body ++ [';'])) back := by
  have hnil (front : Text) : grammar.foundFrom read front [] = [] :=
    h.foundFrom_eq_nil List.not_mem_nil
  rcases h.foundFrom_statement hbody front with ⟨ahead, region, hcut, hfound⟩ | hfound
  · obtain ⟨tree, htree, hfound'⟩ := hfound back
    obtain ⟨last, hlast, hfound''⟩ := hfound []
    -- The tree may be another one, but the same is read off it.
    have hread : read last = (read tree).map (shift 0) :=
      h.read_eq htree hlast (Nat.zero_add _).symm
    have hread' : read tree = (read tree).map (shift 0) :=
      h.read_eq htree htree (Nat.zero_add _).symm
    rw [hfound', hfound'', hnil, hread, ← hread', List.append_nil]
  · rw [hfound back, hfound [], hnil, List.nil_append]

theorem foundIn_eq (text : Text) : grammar.foundIn read text = grammar.foundFrom read [] text := by
  rw [foundIn, foundFrom, findAll_eq]

/-- What is found in a text is what is found in its first statement and then what is found in the
rest, moved by the length of the statement. -/
theorem foundIn_append (h : grammar.Statements read shift) (hbody : ';' ∉ body) (back : Text) :
    grammar.foundIn read (body ++ ';' :: back) = grammar.foundIn read (body ++ [';']) ++
      (grammar.foundIn read back).map (shift (Text.size (body ++ [';']))) := by
  have hname : Text.isNameChar ';' = false := by decide +kernel
  have hfront : Text.Joined (body ++ [';']) back ↔ Text.Joined [] back := by
    simp [Text.Joined, hname]
  rw [foundIn_eq, foundIn_eq, foundIn_eq, h.foundFrom_append hbody, List.nil_append,
    h.foundFrom_shift hfront (Nat.add_zero _).symm]

/-- Without a semicolon nothing is found in a text. -/
theorem foundIn_eq_nil (h : grammar.Statements read shift) {text : Text} (htext : ';' ∉ text) :
    grammar.foundIn read text = [] := by
  rw [foundIn_eq, h.foundFrom_eq_nil htext]

/-- What is found in a statement is read off a match in it, unless nothing is found. -/
theorem foundIn_statement (h : grammar.Statements read shift) (hbody : ';' ∉ body) :
    grammar.foundIn read (body ++ [';']) = [] ∨ ∃ ahead region tree,
      body ++ [';'] = ahead ++ region ∧
      grammar.Reads (.expr (.call (.rule 0))) ahead region [] [some tree] ∧
      grammar.foundIn read (body ++ [';']) = (read tree).toList := by
  have hnil (front : Text) : grammar.foundFrom read front [] = [] :=
    h.foundFrom_eq_nil List.not_mem_nil
  rw [foundIn_eq]
  rcases h.foundFrom_statement hbody [] with ⟨ahead, region, hcut, hfound⟩ | hfound
  · obtain ⟨tree, htree, hfound⟩ := hfound []
    exact Or.inr ⟨ahead, region, tree, hcut, htree, by rw [hfound, hnil, List.append_nil]⟩
  · exact Or.inl (by rw [hfound, hnil])

end Statements

end Grammar

end Retrace
