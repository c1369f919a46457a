import Retrace.Proofs.Extension.ArrayInit.Constants

/-!
# How array declarations are written

An array declaration with a single value consists of words, blanks and single characters, among
them one bracket of each kind. `Layout` lists its words and the blanks in front of them. The
brackets tell where the size and the value stand, and the words in front of the first bracket which
of them are qualifiers, so the layout is known from the text (`Layout.eq_of_text_eq`), and with it
everything that is read off the declaration (`statements_arrays`).
-/

namespace Retrace.ArrayInit

open Shape

/-! ## Layouts -/

/-- The words of an array declaration and the blanks in front of them and of the characters between
them. -/
@[ext] structure Layout where
  /-- The qualifiers, with the blanks in front of each. -/
  qualifiers : Text
  /-- What is in front of the type. -/
  beforeType : Text
  /-- The type of the elements. -/
  type : Text
  /-- What is in front of the name. -/
  beforeName : Text
  /-- The name of the array. -/
  name : Text
  /-- What is in front of the opening bracket. -/
  beforeOpening : Text
  /-- What is in front of the size. -/
  beforeSize : Text
  /-- The size. -/
  size : Text
  /-- What is in front of the closing bracket. -/
  beforeClosing : Text
  /-- What is in front of the equals sign. -/
  beforeEquals : Text
  /-- What is in front of the opening brace. -/
  beforeBrace : Text
  /-- What is in front of the value. -/
  beforeValue : Text
  /-- The value. -/
  value : Text
  /-- What is in front of the closing brace. -/
  beforeEnd : Text
  /-- What is in front of the semicolon. -/
  beforeSemicolon : Text

namespace Layout

/-- What is ahead of the opening bracket. -/
def head (layout : Layout) : Text :=
  layout.qualifiers ++ (layout.beforeType ++ (layout.type ++
    (layout.beforeName ++ (layout.name ++ layout.beforeOpening))))

/-- What is ahead of the size. -/
def ahead (layout : Layout) : Text :=
  layout.head ++ '[' :: layout.beforeSize

/-- What is between the size and the value. -/
def between (layout : Layout) : Text :=
  layout.beforeClosing ++ ']' :: (layout.beforeEquals ++
    '=' :: (layout.beforeBrace ++ '\x7b' :: layout.beforeValue))

/-- What is between the value and the semicolon. -/
def behind (layout : Layout) : Text :=
  layout.beforeEnd ++ '\x7d' :: layout.beforeSemicolon

/-- The declaration as it is written. -/
def text (layout : Layout) : Text :=
  layout.ahead ++ (layout.size ++ (layout.between ++ (layout.value ++ (layout.behind ++ [';']))))

/-- The blanks between the words. -/
def gaps (layout : Layout) : List Text :=
  [layout.beforeType, layout.beforeName, layout.beforeOpening, layout.beforeSize,
    layout.beforeClosing, layout.beforeEquals, layout.beforeBrace, layout.beforeValue,
    layout.beforeEnd, layout.beforeSemicolon]

/-- The blanks are blanks and the words are words, as far apart from each other as they have to
be. -/
structure WellFormed (layout : Layout) : Prop where
  /-- There are blanks between the words. -/
  isBlank : ∀ gap ∈ layout.gaps, gap.all Text.isBlank = true
  /-- The type, the name and the size are words. -/
  isWord : ∀ word ∈ [layout.type, layout.name, layout.size],
    word ≠ [] ∧ word.all isWordChar = true
  /-- The qualifiers are words with blanks in front of them. -/
  qualifiers_loose : layout.qualifiers.all isLoose = true
  /-- There are no blanks behind the qualifiers. -/
  qualifiers_stop : Text.Stops Text.isBlank layout.qualifiers.reverse
  /-- The type is not a part of the last qualifier. -/
  beforeType_ne : layout.beforeType ≠ [] ∨ layout.qualifiers = []
  /-- The name is not a part of the type. -/
  beforeName_ne : layout.beforeName ≠ []
  /-- There is a value. -/
  value_ne : layout.value ≠ []
  /-- The value consists of words and a minus sign. -/
  value_loose : layout.value.all (fun c => isLoose c || c = '-') = true
  /-- The value does not begin with a blank. -/
  value_start : Text.Stops Text.isBlank layout.value
  /-- The value does not end with a blank. -/
  value_stop : Text.Stops Text.isBlank layout.value.reverse

/-- The declaration that is read off a text with this layout. -/
def declaration (offset : Nat) (layout : Layout) : Declaration where
  start := offset + Text.size (layout.qualifiers.takeWhile Text.isBlank)
  size := ⟨offset + Text.size layout.ahead, offset + Text.size (layout.ahead ++ layout.size)⟩
  value :=
    ⟨offset + Text.size (layout.ahead ++ (layout.size ++ layout.between)),
      offset + Text.size (layout.ahead ++ (layout.size ++ (layout.between ++ layout.value)))⟩

end Layout

theorem stops_append_of_ne_nil {p : Char → Bool} {run rest : Text} (hne : run ≠ [])
    (h : Text.Stops p run) : Text.Stops p (run ++ rest) := by
  obtain ⟨c, later, rfl⟩ := List.exists_cons_of_ne_nil hne
  exact h

/-- No word ends with a blank. -/
theorem stops_isBlank_of_isWordChar {word : Text} (h : word.all isWordChar = true) :
    Text.Stops Text.isBlank word := by
  intro c hc
  exact isBlank_of_isWordChar (List.all_eq_true.1 h c (List.mem_of_mem_head? hc))

/-- No run of blanks begins a word. -/
theorem stops_isWordChar_of_isBlank {gap : Text} (h : gap.all Text.isBlank = true) :
    Text.Stops isWordChar gap := by
  intro c hc
  rw [Bool.eq_false_iff]
  intro hword
  have hblank := List.all_eq_true.1 h c (List.mem_of_mem_head? hc)
  exact Bool.eq_false_iff.1 (isBlank_of_isWordChar hword) hblank

/-- Two words without a blank between them are one. -/
theorem glued_of_isWordChar {front ahead word back : Text} (hahead : ahead ≠ [])
    (hlast : ∀ c, ahead.getLast? = some c → isWordChar c = true) (hne : word ≠ [])
    (hword : word.all isWordChar = true) : Text.Glued (front ++ ahead) word back := by
  obtain ⟨ahead, c, rfl⟩ := (List.eq_nil_or_concat ahead).resolve_left hahead
  obtain ⟨d, word, rfl⟩ := List.exists_cons_of_ne_nil hne
  have hc := isNameChar_of_isWordChar (hlast c (by simp))
  have hd := isNameChar_of_isWordChar (List.all_eq_true.1 hword d List.mem_cons_self)
  rw [List.concat_eq_append, ← List.append_assoc]
  exact Or.inl ⟨by simpa using hc, by simpa using hd⟩

namespace Layout.WellFormed

variable {layout other : Layout}

/-- Read backwards, blanks end where a word stands. -/
theorem stops_isBlank_word (h : layout.WellFormed) {front word : Text}
    (hmem : word ∈ [layout.type, layout.name, layout.size]) :
    Text.Stops Text.isBlank (front ++ word).reverse := by
  obtain ⟨hne, hall⟩ := h.isWord word hmem
  rw [List.reverse_append]
  refine stops_append_of_ne_nil (by simpa using hne) (stops_isBlank_of_isWordChar ?_)
  rwa [List.all_reverse]

/-- Read backwards, a word ends where blanks stand in front of it. -/
theorem stops_isWordChar_gap (h : layout.WellFormed) {front gap : Text} (hmem : gap ∈ layout.gaps)
    (hne : gap ≠ []) : Text.Stops isWordChar (front ++ gap).reverse := by
  rw [List.reverse_append]
  refine stops_append_of_ne_nil (by simpa using hne) (stops_isWordChar_of_isBlank ?_)
  rw [List.all_reverse]
  exact h.isBlank gap hmem

/-- So does the type: without blanks in front of it there are no qualifiers, which could end in a
letter. -/
theorem stops_isWordChar_beforeType (h : layout.WellFormed) :
    Text.Stops isWordChar (layout.qualifiers ++ layout.beforeType).reverse := by
  by_cases hne : layout.beforeType = []
  · rw [hne, h.beforeType_ne.resolve_left (not_not.2 hne)]
    exact Text.stops_nil _
  · exact h.stops_isWordChar_gap (by simp [gaps]) hne

theorem stops_isBlank_size (h : layout.WellFormed) (rest : Text) :
    Text.Stops Text.isBlank (layout.size ++ rest) :=
  stops_append_of_ne_nil (h.isWord _ (by simp)).1
    (stops_isBlank_of_isWordChar (h.isWord _ (by simp)).2)

theorem stops_isWordChar_beforeClosing (h : layout.WellFormed) (rest : Text) :
    Text.Stops isWordChar (layout.beforeClosing ++ ']' :: rest) :=
  Text.stops_append (stops_isWordChar_of_isBlank (h.isBlank _ (by simp [gaps])))
    (Text.stops_cons.2 (by decide))

theorem stops_isBlank_value (h : layout.WellFormed) (rest : Text) :
    Text.Stops Text.isBlank (layout.value ++ rest) :=
  stops_append_of_ne_nil h.value_ne h.value_start

theorem all_head (h : layout.WellFormed) : layout.head.all isLoose = true := by
  have hgap {gap : Text} (hmem : gap ∈ layout.gaps) : gap.all isLoose = true :=
    all_isLoose_of_isBlank (h.isBlank gap hmem)
  have hword {word : Text} (hmem : word ∈ [layout.type, layout.name, layout.size]) :
      word.all isLoose = true :=
    all_isLoose_of_isWordChar (h.isWord word hmem).2
  simp only [head, List.all_append, Bool.and_eq_true]
  exact ⟨h.qualifiers_loose, hgap (by simp [gaps]), hword (by simp), hgap (by simp [gaps]),
    hword (by simp), hgap (by simp [gaps])⟩

theorem opening_not_mem_head (h : layout.WellFormed) : '[' ∉ layout.head :=
  not_mem_of_all_isLoose h.all_head (by decide)

/-- The first closing brace behind the value is the one that ends the list. -/
theorem closing_not_mem_value (h : layout.WellFormed) :
    '\x7d' ∉ layout.value ++ layout.beforeEnd := by
  rw [List.mem_append, not_or]
  refine ⟨fun hmem => ?_, not_mem_of_all_isLoose
    (all_isLoose_of_isBlank (h.isBlank _ (by simp [gaps]))) (by decide)⟩
  exact absurd (List.all_eq_true.1 h.value_loose _ hmem) (by decide)

/-- The words ahead of the first bracket are told apart from behind. -/
theorem eq_of_head_eq (h : layout.WellFormed) (h' : other.WellFormed)
    (heq : layout.head = other.head) :
    layout.qualifiers = other.qualifiers ∧ layout.beforeType = other.beforeType ∧
      layout.type = other.type ∧ layout.beforeName = other.beforeName ∧
      layout.name = other.name ∧ layout.beforeOpening = other.beforeOpening := by
  -- Qualifiers may be any words, so the runs are taken off at the end.
  unfold head at heq
  simp only [← List.append_assoc] at heq
  obtain ⟨heq, hopening⟩ := Text.append_run_inj (h.isBlank _ (by simp [gaps]))
    (h'.isBlank _ (by simp [gaps])) (h.stops_isBlank_word (by simp))
    (h'.stops_isBlank_word (by simp)) heq
  obtain ⟨heq, hname⟩ := Text.append_run_inj (h.isWord _ (by simp)).2 (h'.isWord _ (by simp)).2
    (h.stops_isWordChar_gap (by simp [gaps]) h.beforeName_ne)
    (h'.stops_isWordChar_gap (by simp [gaps]) h'.beforeName_ne) heq
  obtain ⟨heq, hbeforeName⟩ := Text.append_run_inj (h.isBlank _ (by simp [gaps]))
    (h'.isBlank _ (by simp [gaps])) (h.stops_isBlank_word (by simp))
    (h'.stops_isBlank_word (by simp)) heq
  obtain ⟨heq, htype⟩ := Text.append_run_inj (h.isWord _ (by simp)).2 (h'.isWord _ (by simp)).2
    h.stops_isWordChar_beforeType h'.stops_isWordChar_beforeType heq
  obtain ⟨hqualifiers, hbeforeType⟩ := Text.append_run_inj (h.isBlank _ (by simp [gaps]))
    (h'.isBlank _ (by simp [gaps])) h.qualifiers_stop h'.qualifiers_stop heq
  exact ⟨hqualifiers, hbeforeType, htype, hbeforeName, hname, hopening⟩

/-- Blanks end where a character stands that is no blank. -/
theorem gap_cons_inj (h : layout.WellFormed) (h' : other.WellFormed) {gap gap' rest rest' : Text}
    {c : Char} (hgap : gap ∈ layout.gaps) (hgap' : gap' ∈ other.gaps) (hc : Text.isBlank c = false)
    (heq : gap ++ c :: rest = gap' ++ c :: rest') : gap = gap' ∧ rest = rest' := by
  obtain ⟨hsame, hrest⟩ := Text.run_append_inj (h.isBlank gap hgap) (h'.isBlank gap' hgap')
    (Text.stops_cons.2 hc) (Text.stops_cons.2 hc) heq
  exact ⟨hsame, (List.cons.inj hrest).2⟩

/-- The layout of a declaration is known from its text. -/
theorem eq_of_text_eq (h : layout.WellFormed) (h' : other.WellFormed)
    (heq : layout.text = other.text) : layout = other := by
  -- The first opening bracket ends the words ahead of the size.
  simp only [text, ahead, between, behind, List.append_assoc, List.cons_append] at heq
  obtain ⟨hhead, heq⟩ := Text.append_cons_inj h.opening_not_mem_head h'.opening_not_mem_head heq
  obtain ⟨hqualifiers, hbeforeType, htype, hbeforeName, hname, hbeforeOpening⟩ :=
    h.eq_of_head_eq h' hhead
  -- From there to the value, every run of blanks and every word ends where the next one begins.
  obtain ⟨hbeforeSize, heq⟩ := Text.run_append_inj (h.isBlank _ (by simp [gaps]))
    (h'.isBlank _ (by simp [gaps])) (h.stops_isBlank_size _) (h'.stops_isBlank_size _) heq
  obtain ⟨hsize, heq⟩ := Text.run_append_inj (h.isWord _ (by simp)).2 (h'.isWord _ (by simp)).2
    (h.stops_isWordChar_beforeClosing _) (h'.stops_isWordChar_beforeClosing _) heq
  obtain ⟨hbeforeClosing, heq⟩ :=
    h.gap_cons_inj h' (by simp [gaps]) (by simp [gaps]) (by decide) heq
  obtain ⟨hbeforeEquals, heq⟩ :=
    h.gap_cons_inj h' (by simp [gaps]) (by simp [gaps]) (by decide) heq
  obtain ⟨hbeforeBrace, heq⟩ :=
    h.gap_cons_inj h' (by simp [gaps]) (by simp [gaps]) (by decide) heq
  obtain ⟨hbeforeValue, heq⟩ := Text.run_append_inj (h.isBlank _ (by simp [gaps]))
    (h'.isBlank _ (by simp [gaps])) (h.stops_isBlank_value _) (h'.stops_isBlank_value _) heq
  -- A value may have blanks inside, so it is told from the blanks behind it by going backwards.
  simp only [← List.append_assoc layout.value, ← List.append_assoc other.value] at heq
  obtain ⟨hvalue, heq⟩ :=
    Text.append_cons_inj h.closing_not_mem_value h'.closing_not_mem_value heq
  obtain ⟨hvalue, hbeforeEnd⟩ := Text.append_run_inj (h.isBlank _ (by simp [gaps]))
    (h'.isBlank _ (by simp [gaps])) h.value_stop h'.value_stop hvalue
  have hbeforeSemicolon := List.append_cancel_right heq
  ext1 <;> assumption

end Layout.WellFormed

/-- A character that is neither loose nor a minus sign stands in a declaration only if it is one of
the characters between the words. -/
theorem Layout.WellFormed.mem_text {layout : Layout} (h : layout.WellFormed) (c : Char)
    (hc : (isLoose c || c = '-') = false) :
    (c ∈ layout.ahead ++ (layout.size ++ layout.between) ↔ c ∈ ['[', ']', '=', '\x7b']) ∧
      (c ∈ layout.value ++ layout.behind ↔ c = '\x7d') := by
  obtain ⟨hloose, -⟩ := Bool.or_eq_false_iff.1 hc
  have hgap : ∀ gap ∈ layout.gaps, c ∉ gap := fun gap hmem =>
    not_mem_of_all_isLoose (all_isLoose_of_isBlank (h.isBlank gap hmem)) hloose
  have hsize : c ∉ layout.size :=
    not_mem_of_all_isLoose (all_isLoose_of_isWordChar (h.isWord _ (by simp)).2) hloose
  have hvalue : c ∉ layout.value := fun hmem =>
    Bool.eq_false_iff.1 hc (List.all_eq_true.1 h.value_loose c hmem)
  simp only [Layout.gaps, List.forall_mem_cons] at hgap
  constructor
  · simp [Layout.ahead, Layout.between, not_mem_of_all_isLoose h.all_head hloose, hgap, hsize]
  · simp [Layout.behind, hgap, hvalue]

/-! ## Reading a declaration -/

theorem basic_arrays : arrays.Basic where
  skip_eq := by cbv
  tokens token htoken := by
    have htokens : arrays.tokens = Grammar.builtinTokens.toArray := by cbv
    simpa [htokens] using htoken

theorem rules_arrays_zero : arrays.rules[0]? = some ⟨"decl",
    .seq ([.loop 1 (.call (.rule 1)), .call (.token 0), .call (.token 0), .literal ['['],
      .call (.rule 2), .literal [']'], .literal ['='], .literal ['\x7b'], .call (.rule 3),
      .literal ['\x7d']] ++ [.literal [';']])⟩ := by
  cbv

theorem rules_arrays_one : arrays.rules[1]? = some ⟨"qualifier",
    .either [.literal "const".toList, .literal "meta".toList]⟩ := by
  cbv

theorem rules_arrays_two : arrays.rules[2]? = some ⟨"size",
    .either [.call (.token 1), .call (.token 0)]⟩ := by
  cbv

theorem rules_arrays_three : arrays.rules[3]? = some ⟨"value",
    .either [.seq [.optional (.literal ['-']), .call (.token 1)], .call (.token 2),
      .call (.token 0)]⟩ := by
  cbv

variable {front region back : Text} {children : List (Option ParseTree)}

/-- A token is a word behind blanks. -/
theorem exists_of_reads_token {index : Nat}
    (h : arrays.Reads (.expr (.call (.token index))) front region back children) :
    ∃ gap word name, region = gap ++ word ∧ gap.all Text.isBlank = true ∧ word ≠ [] ∧
      word.all isWordChar = true ∧ children = [some (.leaf ⟨name, word,
        ⟨Text.size (front ++ gap), Text.size (front ++ region)⟩⟩)] := by
  obtain ⟨token, gap, word, htoken, hlength, hne, rfl, hstands, rfl⟩ := h.of_token
  exact ⟨gap, word, token.name, rfl, hstands.isBlank basic_arrays, hne,
    all_isWordChar (basic_arrays.tokens _ (Array.mem_of_getElem? htoken)) hne hlength, rfl⟩

/-- A qualifier is a word behind blanks. -/
theorem exists_of_reads_qualifier
    (h : arrays.Reads (.expr (.call (.rule 1))) front region back children) :
    ∃ gap word below, region = gap ++ word ∧ gap.all Text.isBlank = true ∧ word ≠ [] ∧
      word.all isWordChar = true ∧ children = [some (.node (some "qualifier") [some (.leaf below)]
        ⟨Text.size (front ++ gap), Text.size (front ++ region)⟩)] := by
  obtain ⟨rule, below, hrule, hbody, rfl⟩ := h.of_rule
  obtain rfl := Option.some.inj (rules_arrays_one.symm.trans hrule)
  obtain ⟨branch, hbranch, hbody⟩ := hbody.of_either
  obtain ⟨word, rfl, hne, hword⟩ : ∃ word, branch = .literal word ∧ word ≠ [] ∧
      word.all isWordChar = true := by
    simp only [List.mem_cons, List.not_mem_nil, or_false] at hbranch
    rcases hbranch with rfl | rfl <;> exact ⟨_, rfl, by decide, by decide⟩
  obtain ⟨gap, rfl, hstands, rfl⟩ := hbody.of_literal
  exact ⟨gap, word, _, rfl, hstands.isBlank basic_arrays, hne, hword, rfl⟩

/-- Qualifiers are loose words. No size and no value is found below them. -/
theorem reads_qualifiers (h : arrays.Reads (.rounds (.call (.rule 1))) front region back children) :
    region.all isLoose = true ∧ Text.Stops Text.isBlank region.reverse ∧
      ParseTree.nodesOf "size" children = [] ∧ ParseTree.nodesOf "value" children = [] ∧
      (coverSpan children (Text.size front)).start =
        Text.size (front ++ region.takeWhile Text.isBlank) := by
  -- Each round takes characters, so the induction is on the length of the region.
  induction hlength : region.length using Nat.strongRecOn generalizing front region children with
  | ind length ih =>
    rcases h.of_round with ⟨rfl, rfl⟩ | ⟨ahead, behind, here, later, rfl, rfl, hahead, hbehind⟩
    · exact ⟨rfl, Text.stops_nil _, rfl, rfl, by simp [coverSpan, Span.point]⟩
    · obtain ⟨gap, word, below, rfl, hgap, hne, hword, rfl⟩ := exists_of_reads_qualifier hahead
      have hlt : behind.length < length := by
        have hpos := List.length_pos_iff.2 hne
        simp only [← hlength, List.length_append]
        omega
      obtain ⟨hloose, hstops, hsize, hvalue, -⟩ := ih behind.length hlt hbehind rfl
      have hstart : Text.Stops Text.isBlank (word ++ behind) :=
        stops_append_of_ne_nil hne (stops_isBlank_of_isWordChar hword)
      refine ⟨?_, ?_, ?_, ?_, ?_⟩
      · simp only [List.all_append, all_isLoose_of_isBlank hgap, all_isLoose_of_isWordChar hword,
          hloose, Bool.and_self]
      · rw [List.reverse_append, List.reverse_append]
        refine Text.stops_append hstops (stops_append_of_ne_nil (by simpa using hne) ?_)
        exact stops_isBlank_of_isWordChar (by rwa [List.all_reverse])
      · simp [groupItems, hsize]
      · simp [groupItems, hvalue]
      · rw [groupItems, hbehind.start_coverSpan (by simp), List.append_assoc,
          Text.takeWhile_append hgap hstart]
        rfl

/-- The size is a word behind blanks. -/
theorem exists_of_reads_size
    (h : arrays.Reads (.expr (.call (.rule 2))) front region back children) :
    ∃ gap word below, region = gap ++ word ∧ gap.all Text.isBlank = true ∧ word ≠ [] ∧
      word.all isWordChar = true ∧ children = [some (.node (some "size") [some (.leaf below)]
        ⟨Text.size (front ++ gap), Text.size (front ++ region)⟩)] := by
  obtain ⟨rule, below, hrule, hbody, rfl⟩ := h.of_rule
  obtain rfl := Option.some.inj (rules_arrays_two.symm.trans hrule)
  obtain ⟨branch, hbranch, hbody⟩ := hbody.of_either
  obtain ⟨index, rfl⟩ : ∃ index, branch = .call (.token index) := by
    simp only [List.mem_cons, List.not_mem_nil, or_false] at hbranch
    rcases hbranch with rfl | rfl <;> exact ⟨_, rfl⟩
  obtain ⟨gap, word, name, rfl, hgap, hne, hword, rfl⟩ := exists_of_reads_token hbody
  exact ⟨gap, word, _, rfl, hgap, hne, hword, rfl⟩

/-- Some trees cover a value, behind blanks: loose characters and minus signs, without blanks at
either end. -/
def CoversValue (front region : Text) (below : List (Option ParseTree)) : Prop :=
  ∃ gap value, region = gap ++ value ∧ gap.all Text.isBlank = true ∧ value ≠ [] ∧
    value.all (fun c => isLoose c || c = '-') = true ∧ Text.Stops Text.isBlank value ∧
    Text.Stops Text.isBlank value.reverse ∧ coverSpan below (Text.size front) =
      ⟨Text.size (front ++ gap), Text.size (front ++ region)⟩

theorem coversValue_of_token {index : Nat}
    (h : arrays.Reads (.expr (.call (.token index))) front region back children) :
    CoversValue front region children := by
  obtain ⟨gap, word, name, rfl, hgap, hne, hword, rfl⟩ := exists_of_reads_token h
  exact ⟨gap, word, rfl, hgap, hne, all_isLoose_or (all_isLoose_of_isWordChar hword),
    stops_isBlank_of_isWordChar hword, stops_isBlank_of_isWordChar (by rwa [List.all_reverse]), rfl⟩

/-- Blanks may stand between a sign and the number. -/
theorem coversValue_of_number {index : Nat}
    (h : arrays.Reads (.items [.optional (.literal ['-']), .call (.token index)]) front region back
      children) : CoversValue front region children := by
  obtain ⟨sign, rest, here, later, rfl, rfl, hsign, hlater⟩ := h.of_item
  obtain ⟨ahead, behind, here', later', rfl, rfl, hnumber, hnone⟩ := hlater.of_item
  obtain ⟨rfl, rfl⟩ := hnone.of_noItem
  obtain ⟨gap, word, name, rfl, hgap, hne, hword, rfl⟩ := exists_of_reads_token hnumber
  have hstop := stops_isBlank_of_isWordChar (List.all_reverse.trans hword)
  -- Without a sign, the value is the number; otherwise it begins with the sign.
  rcases hsign.of_optional with ⟨rfl, rfl⟩ | ⟨minus, hminus, rfl⟩
  · exact ⟨gap, word, by simp, hgap, hne, all_isLoose_or (all_isLoose_of_isWordChar hword),
      stops_isBlank_of_isWordChar hword, hstop, by simp [coverSpan]⟩
  · obtain ⟨gap', rfl, hstands, rfl⟩ := hminus.of_literal
    refine ⟨gap', '-' :: (gap ++ word), by simp, hstands.isBlank basic_arrays, by simp, ?_, ?_,
      ?_, ?_⟩
    · simp only [List.all_cons, List.all_append, all_isLoose_or (all_isLoose_of_isBlank hgap),
        all_isLoose_or (all_isLoose_of_isWordChar hword)]
      decide
    · exact Text.stops_cons.2 (by decide)
    · rw [List.reverse_cons, List.reverse_append, List.append_assoc]
      exact stops_append_of_ne_nil (by simpa using hne) hstop
    · simp [coverSpan, groupItems, Span.cover]

/-- The value is a word or a number with a sign, behind blanks. -/
theorem exists_of_reads_value
    (h : arrays.Reads (.expr (.call (.rule 3))) front region back children) :
    ∃ gap value below, region = gap ++ value ∧ gap.all Text.isBlank = true ∧ value ≠ [] ∧
      value.all (fun c => isLoose c || c = '-') = true ∧ Text.Stops Text.isBlank value ∧
      Text.Stops Text.isBlank value.reverse ∧
      children = [some (.node (some "value") below
        ⟨Text.size (front ++ gap), Text.size (front ++ region)⟩)] := by
  obtain ⟨rule, below, hrule, hbody, rfl⟩ := h.of_rule
  obtain rfl := Option.some.inj (rules_arrays_three.symm.trans hrule)
  obtain ⟨branch, hbranch, hbody⟩ := hbody.of_either
  have hcovers : CoversValue front region below := by
    simp only [List.mem_cons, List.not_mem_nil, or_false] at hbranch
    rcases hbranch with rfl | rfl | rfl
    · exact coversValue_of_number hbody.of_seq
    · exact coversValue_of_token hbody
    · exact coversValue_of_token hbody
  obtain ⟨gap, value, rfl, hgap, hne, hall, hstart, hstop, hspan⟩ := hcovers
  exact ⟨gap, value, below, rfl, hgap, hne, hall, hstart, hstop, by rw [hspan]⟩

/-- What is read off a tree of the grammar. -/
theorem declarationOf?_node (children : List (Option ParseTree)) (span : Span) :
    declarationOf? (.node (some "decl") children span) =
      (ParseTree.nodesOf "size" children).head?.bind fun size =>
        (ParseTree.nodesOf "value" children).head?.bind fun value =>
          some ⟨span.start, size.span, value.span⟩ := by
  unfold declarationOf?
  simp only [ParseTree.find?, ParseTree.findAll_node]
  rfl

/-- A declaration is read off its layout. -/
theorem exists_of_reads_array {tree : ParseTree}
    (h : arrays.Reads (.expr (.call (.rule 0))) front region back [some tree]) :
    ∃ layout : Layout, layout.WellFormed ∧ region = layout.text ∧
      declarationOf? tree = some (layout.declaration (Text.size front)) := by
  obtain ⟨rule, children, hrule, hbody, htree⟩ := h.of_rule
  obtain rfl := Option.some.inj (rules_arrays_zero.symm.trans hrule)
  have hident : arrays.tokens[0]? = some ⟨"IDENT", .name⟩ := by cbv
  -- The qualifiers come first; blanks in front of the first of them belong to the declaration.
  obtain ⟨qualifiers, _, loop, later, rfl, rfl, hloop, h₁⟩ := hbody.of_seq.of_item
  obtain ⟨rounds, hrounds, rfl⟩ := hloop.of_loop
  obtain rfl := Option.some.inj (List.singleton_inj.1 htree)
  obtain ⟨hloose, hstops, hnosize, hnovalue, hstart⟩ := reads_qualifiers hrounds
  have hle : (coverSpan rounds (Text.size front)).start ≤ Text.size (front ++ qualifiers) := by
    have htake : Text.size (qualifiers.takeWhile Text.isBlank ++
        qualifiers.dropWhile Text.isBlank) = Text.size qualifiers := by
      rw [List.takeWhile_append_dropWhile]
    rw [hstart, Text.size_append, Text.size_append, ← htake, Text.size_append]
    omega
  rw [declarationOf?_node, List.singleton_append, h₁.start_coverSpan (by simpa using hle),
    ParseTree.span_node, hstart]
  -- The items are read one after the other.
  obtain ⟨beforeType, type, _, _, rfl, hbeforeType, htype, hlength, hunglued, rfl, h₂⟩ :=
    h₁.of_token_item basic_arrays hident
  obtain ⟨beforeName, name, _, _, rfl, hbeforeName, hname, hlength', hunglued', rfl, h₃⟩ :=
    h₂.of_token_item basic_arrays hident
  obtain ⟨beforeOpening, _, _, rfl, hbeforeOpening, -, rfl, h₄⟩ := h₃.of_literal_item basic_arrays
  obtain ⟨sizeRegion, _, sizeTree, _, rfl, rfl, hsize, h₅⟩ := h₄.of_item
  obtain ⟨beforeClosing, _, _, rfl, hbeforeClosing, -, rfl, h₆⟩ := h₅.of_literal_item basic_arrays
  obtain ⟨beforeEquals, _, _, rfl, hbeforeEquals, -, rfl, h₇⟩ := h₆.of_literal_item basic_arrays
  obtain ⟨beforeBrace, _, _, rfl, hbeforeBrace, -, rfl, h₈⟩ := h₇.of_literal_item basic_arrays
  obtain ⟨valueRegion, _, valueTree, _, rfl, rfl, hvalue, h₉⟩ := h₈.of_item
  obtain ⟨beforeEnd, _, _, rfl, hbeforeEnd, -, rfl, h₁₀⟩ := h₉.of_literal_item basic_arrays
  obtain ⟨beforeSemicolon, _, _, rfl, hbeforeSemicolon, -, rfl, h₁₁⟩ :=
    h₁₀.of_literal_item basic_arrays
  obtain ⟨rfl, rfl⟩ := h₁₁.of_noItem
  obtain ⟨beforeSize, size, sizeBelow, rfl, hbeforeSize, hsizene, hsizeword, rfl⟩ :=
    exists_of_reads_size hsize
  obtain ⟨beforeValue, value, valueBelow, rfl, hbeforeValue, hvaluene, hvalueall, hvaluestart,
    hvaluestop, rfl⟩ := exists_of_reads_value hvalue
  have htypeword := all_isWordChar (by simp [Grammar.builtinTokens]) htype hlength
  have hnameword := all_isWordChar (by simp [Grammar.builtinTokens]) hname hlength'
  refine ⟨⟨qualifiers, beforeType, type, beforeName, name, beforeOpening, beforeSize, size,
    beforeClosing, beforeEquals, beforeBrace, beforeValue, value, beforeEnd, beforeSemicolon⟩,
    ?_, ?_, ?_⟩
  · exact {
      isBlank := by
        simp only [Layout.gaps, List.forall_mem_cons]
        exact ⟨hbeforeType, hbeforeName, hbeforeOpening, hbeforeSize, hbeforeClosing, hbeforeEquals,
          hbeforeBrace, hbeforeValue, hbeforeEnd, hbeforeSemicolon, List.forall_mem_nil _⟩
      isWord := by
        simp only [List.forall_mem_cons]
        exact ⟨⟨htype, htypeword⟩, ⟨hname, hnameword⟩, ⟨hsizene, hsizeword⟩, List.forall_mem_nil _⟩
      qualifiers_loose := hloose
      qualifiers_stop := hstops
      beforeType_ne := by
        -- A type that follows a qualifier without a blank would be glued to it.
        by_contra hnone
        obtain ⟨rfl, hne⟩ := not_or.1 hnone |>.imp_left not_not.1
        rw [List.append_nil] at hunglued
        refine hunglued (glued_of_isWordChar hne (fun c hc => ?_) htype htypeword)
        -- The last character of the qualifiers is loose and no blank.
        have hall := List.all_eq_true.1 hloose c (List.mem_of_getLast? hc)
        rwa [isLoose, hstops c (by rwa [List.head?_reverse]), Bool.false_or] at hall
      beforeName_ne := by
        rintro rfl
        rw [List.append_nil, ← List.append_assoc (front ++ qualifiers)] at hunglued'
        exact hunglued' (glued_of_isWordChar htype (fun c hc =>
          List.all_eq_true.1 htypeword c (List.mem_of_getLast? hc)) hname hnameword)
      value_ne := hvaluene
      value_loose := hvalueall
      value_start := hvaluestart
      value_stop := hvaluestop }
  · simp [Layout.text, Layout.ahead, Layout.head, Layout.between, Layout.behind]
  · simp [hnosize, hnovalue, Layout.declaration, Layout.ahead, Layout.head, Layout.between]

/-- The same declaration further behind. -/
def Declaration.shift (offset : Nat) (declaration : Declaration) : Declaration where
  start := offset + declaration.start
  size := declaration.size.shift offset
  value := declaration.value.shift offset

theorem Layout.declaration_shift (offset start : Nat) (layout : Layout) :
    layout.declaration (offset + start) = (layout.declaration start).shift offset := by
  simp only [Layout.declaration, Declaration.shift, Span.shift, Declaration.mk.injEq,
    Span.mk.injEq]
  omega

/-- In the region of an array declaration there are an equals sign, a closing brace and no comma. -/
theorem marks_of_reads_array {tree : ParseTree}
    (h : arrays.Reads (.expr (.call (.rule 0))) front region back [some tree]) :
    '=' ∈ region ∧ ',' ∉ region ∧ '\x7d' ∈ region := by
  obtain ⟨layout, hlayout, rfl, -⟩ := exists_of_reads_array h
  have hcomma := hlayout.mem_text ',' (by decide)
  refine ⟨by simp [Layout.text, Layout.between], fun hmem => ?_,
    by simp [Layout.text, Layout.behind]⟩
  simp only [Layout.text, List.mem_append] at hmem hcomma
  simp_all

/-- Array declarations are found statement by statement. -/
theorem statements_arrays : arrays.Statements declarationOf? Declaration.shift where
  compiled := compiled_arrays
  basic := basic_arrays
  exists_top := ⟨_, _, rules_arrays_zero, rfl⟩
  ends := by
    rintro front region back ⟨-, tree, htree⟩
    obtain ⟨layout, hlayout, rfl, -⟩ := exists_of_reads_array htree
    have hsemicolon := hlayout.mem_text ';' (by decide)
    refine ⟨layout.ahead ++ (layout.size ++ (layout.between ++ (layout.value ++ layout.behind))),
      by simp [Layout.text], fun hmem => ?_⟩
    simp only [List.mem_append] at hmem hsemicolon
    simp_all
  read_eq := by
    intro front region back front' back' tree tree' offset htree htree' hsize
    obtain ⟨layout, hlayout, rfl, hread⟩ := exists_of_reads_array htree
    obtain ⟨layout', hlayout', hregion, hread'⟩ := exists_of_reads_array htree'
    -- Wherever the text stands, its layout is the same.
    obtain rfl := hlayout.eq_of_text_eq hlayout' hregion
    rw [hread, hread', hsize, Layout.declaration_shift]
    rfl

end Retrace.ArrayInit
