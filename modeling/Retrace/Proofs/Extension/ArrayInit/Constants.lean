import Retrace.Proofs.Extension.ArrayInit
import Retrace.Proofs.Grammar.Statements

/-!
# How constants are written

The definition of an integer constant goes up to the next semicolon and contains one equals sign.
Its name is what remains ahead of this sign when blanks and the two leading words are left out, and
its value is read off the digits behind the sign; so the region that is matched determines the
constant (`statements_constants`), although there may be several ways to derive it.
-/

namespace Retrace

/-- A blank or a character of a word. -/
def Shape.isLoose (c : Char) : Bool :=
  Text.isBlank c || isWordChar c

/-- A text of blanks is loose. -/
theorem Shape.all_isLoose_of_isBlank {text : Text} (h : text.all Text.isBlank = true) :
    text.all isLoose = true :=
  List.all_eq_true.2 fun c hc => by rw [isLoose, List.all_eq_true.1 h c hc, Bool.true_or]

/-- A word is loose. -/
theorem Shape.all_isLoose_of_isWordChar {text : Text} (h : text.all isWordChar = true) :
    text.all isLoose = true :=
  List.all_eq_true.2 fun c hc => by rw [isLoose, List.all_eq_true.1 h c hc, Bool.or_true]

theorem Shape.all_isLoose_or {text : Text} (h : text.all isLoose = true) :
    text.all (fun c => isLoose c || c = '-') = true :=
  List.all_eq_true.2 fun c hc => by rw [List.all_eq_true.1 h c hc, Bool.true_or]

/-- A character that is not loose is not part of a loose text. -/
theorem Shape.not_mem_of_all_isLoose {text : Text} {c : Char} (h : text.all isLoose = true)
    (hc : isLoose c = false) : c ∉ text :=
  fun hmem => Bool.eq_false_iff.1 hc (List.all_eq_true.1 h c hmem)

/-- No digit is a blank. -/
theorem Shape.isBlank_of_isDigit {c : Char} (h : c.isDigit = true) : Text.isBlank c = false :=
  isBlank_of_isWordChar (by rw [isWordChar, h, Bool.or_true])

/-- A number consists of digits. -/
theorem Shape.all_isDigit {word rest : Text} (hne : word ≠ [])
    (h : number.length? (word ++ rest) = some word.length) : word.all Char.isDigit = true := by
  rcases (length?_number_append hne).1 h with ⟨hall, -⟩ | ⟨-, hall, -⟩
  · rw [List.all_eq_true] at hall ⊢
    intro c hc
    obtain rfl : c = '0' := by simpa using hall c hc
    rfl
  · exact hall

namespace ArrayInit

/-- The grammar of constants is one that was compiled. -/
theorem compiled_constants : constants.Compiled :=
  Grammar.compiled_getD (by decide +kernel)

theorem basic_constants : constants.Basic where
  skip_eq := by cbv
  tokens token htoken := by
    have htokens : constants.tokens = Grammar.builtinTokens.toArray := by cbv
    simpa [htokens] using htoken

/-- The rule for constants. -/
theorem rules_constants : constants.rules[0]? = some ⟨"constant",
    .seq [.literal "const".toList, .literal "int".toList, .call (.token 0), .literal ['='],
      .optional (.literal ['-']), .call (.token 1), .literal [';']]⟩ := by
  cbv

/-- The constant that is written with one text ahead of the equals sign and another behind it, in
front of the semicolon. -/
def constantAt (offset : Nat) (ahead behind : Text) : Option Constant :=
  (Text.numeral? 10 numberLimit (behind.filter Char.isDigit)).map fun value =>
    ⟨offset + Text.size (ahead.takeWhile Text.isBlank),
      (ahead.filter fun c => !Text.isBlank c).drop "constint".toList.length,
      if '-' ∈ behind then -value else value⟩

/-- What the two texts say. -/
theorem constantAt_eq (offset : Nat) {lead gap gap' gap'' name sign before digits behind : Text}
    (hlead : lead.all Text.isBlank = true) (hgap : gap.all Text.isBlank = true)
    (hgap' : gap'.all Text.isBlank = true) (hgap'' : gap''.all Text.isBlank = true)
    (hname : name.all Shape.isWordChar = true)
    (hsign : sign.all (fun c => Text.isBlank c || c = '-') = true)
    (hbefore : before.all Text.isBlank = true) (hdigits : digits.all Char.isDigit = true)
    (hbehind : behind.all Text.isBlank = true) :
    constantAt offset
        (lead ++ ("const".toList ++ (gap ++ ("int".toList ++ (gap' ++ (name ++ gap''))))))
        (sign ++ (before ++ (digits ++ behind))) =
      (Text.numeral? 10 numberLimit digits).bind fun value =>
        some ⟨offset + Text.size lead, name, if '-' ∈ sign then -value else value⟩ := by
  have hplain {c : Char} (hblank : Text.isBlank c = true) : c.isDigit = false ∧ c ≠ '-' := by
    refine ⟨Bool.eq_false_iff.2 fun hdigit => ?_, ?_⟩
    · exact Bool.eq_false_iff.1 (Shape.isBlank_of_isDigit hdigit) hblank
    · rintro rfl
      exact absurd hblank (by decide)
  have hblank {text : Text} (htext : text.all Text.isBlank = true) :
      text.filter (fun c => !Text.isBlank c) = [] ∧ text.filter Char.isDigit = [] ∧ '-' ∉ text := by
    simp only [List.filter_eq_nil_iff, List.all_eq_true] at htext ⊢
    exact ⟨fun c hc => by simp [htext c hc], fun c hc => by simp [hplain (htext c hc)],
      fun hmem => (hplain (htext _ hmem)).2 rfl⟩
  have htake : (lead ++ ("const".toList ++ (gap ++ ("int".toList ++
      (gap' ++ (name ++ gap'')))))).takeWhile Text.isBlank = lead :=
    Text.takeWhile_append hlead (by simp; decide)
  -- Without its blanks, the text ahead consists of the two keywords and the name.
  have hname' : name.filter (fun c => !Text.isBlank c) = name :=
    List.filter_eq_self.2 fun c hc => by
      rw [Shape.isBlank_of_isWordChar (List.all_eq_true.1 hname c hc)]
      rfl
  have hconst : "const".toList.filter (fun c => !Text.isBlank c) = "const".toList := by decide
  have hint : "int".toList.filter (fun c => !Text.isBlank c) = "int".toList := by decide
  -- The only digits of the text behind are those of the number.
  have hsign' : sign.filter Char.isDigit = [] := by
    rw [List.filter_eq_nil_iff]
    intro c hc
    rcases Bool.or_eq_true_iff.1 (List.all_eq_true.1 hsign c hc) with hspace | hminus
    · simp [hplain hspace]
    · obtain rfl := of_decide_eq_true hminus
      decide
  have hdigits' : digits.filter Char.isDigit = digits :=
    List.filter_eq_self.2 (List.all_eq_true.1 hdigits)
  have hminus : '-' ∉ digits := fun hmem => absurd (List.all_eq_true.1 hdigits _ hmem) (by decide)
  rw [constantAt, htake]
  simp only [List.filter_append, (hblank hlead).1, (hblank hgap).1, (hblank hgap').1,
    (hblank hgap'').1, hname', hconst, hint, hsign', (hblank hbefore).2.1, hdigits',
    (hblank hbehind).2.1, List.mem_append, (hblank hbefore).2.2, (hblank hbehind).2.2, hminus]
  simp

/-- What is read off a tree of the grammar. -/
theorem constantOf?_node (rule : Option String) (children : List (Option ParseTree)) (span : Span) :
    constantOf? (.node rule children span) =
      ((ParseTree.leavesOf children).find? (·.token = "IDENT")).bind fun name =>
        ((ParseTree.leavesOf children).find? (·.token = "INT")).bind fun digits =>
          (Text.numeral? 10 numberLimit digits.text).bind fun value =>
            some ⟨span.start, name.text,
              if ((ParseTree.leavesOf children).find? (·.token = "-")).isSome then -value
              else value⟩ := by
  unfold constantOf?
  simp only [ParseTree.leaf?, ParseTree.leaves_node]
  rfl

open Shape in
/-- A constant is read off the text ahead of the equals sign and the text behind it. -/
theorem exists_of_reads_constant {front region back : Text} {tree : ParseTree}
    (h : constants.Reads (.expr (.call (.rule 0))) front region back [some tree]) :
    ∃ ahead behind, region = ahead ++ '=' :: (behind ++ [';']) ∧ ahead.all isLoose = true ∧
      behind.all (fun c => isLoose c || c = '-') = true ∧
      constantOf? tree = constantAt (Text.size front) ahead behind := by
  obtain ⟨rule, children, hrule, hbody, htree⟩ := h.of_rule
  obtain rfl := Option.some.inj (rules_constants.symm.trans hrule)
  have hident : constants.tokens[0]? = some ⟨"IDENT", .name⟩ := by cbv
  have hint : constants.tokens[1]? = some ⟨"INT", .number⟩ := by cbv
  obtain ⟨lead, rest, later, rfl, hlead, -, rfl, h₁⟩ := hbody.of_seq.of_literal_item basic_constants
  obtain rfl := Option.some.inj (List.singleton_inj.1 htree)
  rw [constantOf?_node, h₁.start_coverSpan (by simp)]
  obtain ⟨gap, _, _, rfl, hgap, -, rfl, h₂⟩ := h₁.of_literal_item basic_constants
  obtain ⟨gap', name, _, _, rfl, hgap', hname, hlength, -, rfl, h₃⟩ :=
    h₂.of_token_item basic_constants hident
  obtain ⟨gap'', _, _, rfl, hgap'', -, rfl, h₄⟩ := h₃.of_literal_item basic_constants
  obtain ⟨sign, _, optional, _, rfl, rfl, hsign, h₅⟩ := h₄.of_item
  obtain ⟨before, digits, _, _, rfl, hbefore, hdigits, hlength', -, rfl, h₆⟩ :=
    h₅.of_token_item basic_constants hint
  obtain ⟨behind, _, _, rfl, hbehind, -, rfl, h₇⟩ := h₆.of_literal_item basic_constants
  obtain ⟨rfl, rfl⟩ := h₇.of_noItem
  have hword := all_isWordChar (by simp [Grammar.builtinTokens]) hname hlength
  have hword' := all_isWordChar (by simp [Grammar.builtinTokens]) hdigits hlength'
  have hdigit := all_isDigit hdigits hlength'
  -- The sign is left out or written behind blanks.
  have hwritten : sign.all (fun c => Text.isBlank c || c = '-') = true := by
    rcases hsign.of_optional with ⟨rfl, -⟩ | ⟨below, hbelow, -⟩
    · rfl
    · obtain ⟨gap, rfl, hstands, -⟩ := hbelow.of_literal
      have hgap := hstands.isBlank basic_constants
      simp_all
  refine ⟨lead ++ ("const".toList ++ (gap ++ ("int".toList ++ (gap' ++ (name ++ gap''))))),
    sign ++ (before ++ (digits ++ behind)), by simp, ?_, ?_, ?_⟩
  · simp [all_isLoose_of_isBlank, all_isLoose_of_isWordChar, hlead, hgap, hgap', hgap'', hword]
    decide
  · have hsign' : sign.all (fun c => isLoose c || c = '-') = true :=
      List.all_eq_true.2 fun c hc => by
        rw [isLoose, Bool.or_right_comm, List.all_eq_true.1 hwritten c hc, Bool.true_or]
    simp only [List.all_append, hsign', all_isLoose_or (all_isLoose_of_isBlank hbefore),
      all_isLoose_or (all_isLoose_of_isWordChar hword'),
      all_isLoose_or (all_isLoose_of_isBlank hbehind), Bool.and_self]
  · rw [constantAt_eq _ hlead hgap hgap' hgap'' hword hwritten hbefore hdigit hbehind]
    rcases hsign.of_optional with ⟨rfl, rfl⟩ | ⟨below, hbelow, rfl⟩
    · simp
    · obtain ⟨gap, rfl, -, rfl⟩ := hbelow.of_literal
      simp [groupItems]

/-- The same constant further behind. -/
def Constant.shift (offset : Nat) (constant : Constant) : Constant :=
  { constant with start := offset + constant.start }

theorem constantAt_shift (offset start : Nat) (ahead behind : Text) :
    constantAt (offset + start) ahead behind =
      (constantAt start ahead behind).map (Constant.shift offset) := by
  rw [constantAt, constantAt, Option.map_map]
  simp only [Function.comp_def, Constant.shift, Nat.add_assoc]

/-- In the region of a constant there are an equals sign, no comma and no bracket. -/
theorem marks_of_reads_constant {front region back : Text} {tree : ParseTree}
    (h : constants.Reads (.expr (.call (.rule 0))) front region back [some tree]) :
    '=' ∈ region ∧ ',' ∉ region ∧ '\x7d' ∉ region := by
  obtain ⟨ahead, behind, rfl, hahead, hbehind, -⟩ := exists_of_reads_constant h
  have hnone {c : Char} (hahead' : Shape.isLoose c = false)
      (hbehind' : (Shape.isLoose c || c = '-') = false) (hequals : c ≠ '=') (hlast : c ≠ ';') :
      c ∉ ahead ++ '=' :: (behind ++ [';']) := by
    simp only [List.mem_append, List.mem_cons, List.not_mem_nil, or_false, not_or]
    exact ⟨Shape.not_mem_of_all_isLoose hahead hahead', hequals, fun hmem =>
      Bool.eq_false_iff.1 hbehind' (List.all_eq_true.1 hbehind c hmem), hlast⟩
  exact ⟨by simp, hnone (by decide) (by decide) (by decide) (by decide),
    hnone (by decide) (by decide) (by decide) (by decide)⟩

/-- Constants are found statement by statement. -/
theorem statements_constants : constants.Statements constantOf? Constant.shift where
  compiled := compiled_constants
  basic := basic_constants
  exists_top := ⟨_, [.literal "const".toList, .literal "int".toList, .call (.token 0),
    .literal ['='], .optional (.literal ['-']), .call (.token 1)], rules_constants, rfl⟩
  ends := by
    rintro front region back ⟨-, tree, htree⟩
    obtain ⟨ahead, behind, rfl, hahead, hbehind, -⟩ := exists_of_reads_constant htree
    refine ⟨ahead ++ '=' :: behind, by simp, ?_⟩
    simp only [List.mem_append, List.mem_cons, not_or]
    refine ⟨Shape.not_mem_of_all_isLoose hahead (by decide), by decide, fun hmem => ?_⟩
    exact absurd (List.all_eq_true.1 hbehind _ hmem) (by decide)
  read_eq := by
    intro front region back front' back' tree tree' offset htree htree' hsize
    obtain ⟨ahead, behind, rfl, hahead, -, hread⟩ := exists_of_reads_constant htree
    obtain ⟨ahead', behind', hregion, hahead', -, hread'⟩ := exists_of_reads_constant htree'
    -- Both regions are cut at their equals signs, so they have the same parts.
    obtain ⟨rfl, hbehind⟩ := Text.append_cons_inj
      (Shape.not_mem_of_all_isLoose hahead (by decide))
      (Shape.not_mem_of_all_isLoose hahead' (by decide)) hregion
    obtain rfl := List.append_cancel_right hbehind
    rw [hread, hread', hsize, constantAt_shift]

end ArrayInit

end Retrace
