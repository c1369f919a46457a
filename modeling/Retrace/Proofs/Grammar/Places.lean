import Retrace.Proofs.Grammar.Derivation

/-!
# Places and rows

The places of a text are the ways to split it in two. `Cursor.behind` is the place behind a leading
part, `Grammar.chartBehind` the part of the chart that begins there, and looking a boundary up in a
chart leads to the part behind it (`seek_chartBehind`). Terminals are read at a place exactly as the
declarative reading has it (`literal?_behind`, `token?_behind`).
-/

namespace Retrace

namespace Cursor

/-- The place between two parts of a text. -/
def behind (front back : Text) : Cursor :=
  ⟨Text.size front, front.getLast?, back, back.length, (ofText back).length_rest⟩

theorem next_behind (front : Text) (c : Char) (rest : Text) :
    (behind front (c :: rest)).next = behind (front ++ [c]) rest := by
  simp [next, behind]

/-- Going ahead by as many characters as a part has leads behind this part. -/
theorem advance_behind (front middle back : Text) :
    (behind front (middle ++ back)).advance middle.length = behind (front ++ middle) back := by
  induction middle generalizing front with
  | nil => rw [List.append_nil]; rfl
  | cons c rest ih =>
    rw [List.length_cons, advance, List.cons_append, next_behind, ih, List.append_assoc]
    rfl

/-- The places from the one between two parts of a text on. -/
def placesBehind : (front back : Text) → List Cursor
  | front, [] => [behind front []]
  | front, c :: rest => behind front (c :: rest) :: placesBehind (front ++ [c]) rest

theorem placesFrom_behind (passed : List Cursor) (front back : Text) :
    placesFrom passed (behind front back) back.length =
      passed.reverse ++ placesBehind front back := by
  induction back generalizing passed front with
  | nil => rw [List.length_nil, placesFrom, List.reverse_cons]; rfl
  | cons c rest ih =>
    rw [List.length_cons, placesFrom, next_behind, ih, List.reverse_cons, List.append_assoc]
    rfl

theorem places_ofText (text : Text) : (ofText text).places = placesBehind [] text :=
  placesFrom_behind [] [] text

end Cursor

namespace Grammar

variable {grammar : Grammar}

/-- The part of the chart of a text that begins between two parts of it. -/
def chartBehind (grammar : Grammar) : (front back : Text) → Chart
  | front, [] => [Row.ofCursor grammar (.behind front []) []]
  | front, c :: rest =>
    let later := chartBehind grammar (front ++ [c]) rest
    Row.ofCursor grammar (.behind front (c :: rest)) later :: later

/-- The part of the chart behind the first place. -/
def ahead (grammar : Grammar) (front : Text) : (back : Text) → Chart
  | [] => []
  | c :: rest => grammar.chartBehind (front ++ [c]) rest

theorem chartBehind_eq (front back : Text) :
    grammar.chartBehind front back =
      Row.ofCursor grammar (.behind front back) (grammar.ahead front back) ::
        grammar.ahead front back := by
  cases back <;> rfl

theorem chart_eq (text : Text) : grammar.chart text = grammar.chartBehind [] text := by
  rw [chart, Cursor.places_ofText]
  generalize ([] : Text) = front
  induction text generalizing front with
  | nil => rfl
  | cons c rest ih => rw [Cursor.placesBehind, List.foldr_cons, ih, chartBehind]

end Grammar

namespace Row

/-- Filling in an entry does not move a row. -/
@[simp] theorem cursor_fill (grammar : Grammar) (later : Chart) (row : Row) (entry : Entry) :
    (fill grammar later row entry).cursor = row.cursor := by
  cases entry <;> rfl

theorem cursor_foldl_fill (grammar : Grammar) (later : Chart) (row : Row) (entries : List Entry) :
    (entries.foldl (fill grammar later) row).cursor = row.cursor := by
  induction entries generalizing row with
  | nil => rfl
  | cons entry entries ih => rw [List.foldl_cons, ih, cursor_fill]

@[simp] theorem cursor_ofCursor (grammar : Grammar) (cursor : Cursor) (later : Chart) :
    (ofCursor grammar cursor later).cursor = cursor :=
  cursor_foldl_fill ..

end Row

namespace Chart

/-- What is sought twice is what is sought last, if that lies further ahead. -/
theorem seek_seek {chart : Chart} {offset further : Nat} (h : offset ≤ further) :
    (chart.seek offset).seek further = chart.seek further := by
  induction chart with
  | nil => rfl
  | cons row later ih =>
    unfold seek at ih ⊢
    by_cases hrow : row.cursor.offset < offset
    · rw [List.dropWhile_cons_of_pos (by simpa using hrow), ih,
        List.dropWhile_cons_of_pos (by simpa using Nat.lt_of_lt_of_le hrow h)]
    · rw [List.dropWhile_cons_of_neg (by simpa using hrow)]

/-- Seeking the first place or one before it changes nothing. -/
theorem seek_of_le {chart : Chart} {offset : Nat} (h : offset ≤ chart.offset) :
    chart.seek offset = chart := by
  cases chart with
  | nil => rfl
  | cons row later => exact List.dropWhile_cons_of_neg (by simpa [Chart.offset] using h)

end Chart

namespace Grammar

variable {grammar : Grammar}

/-- The chart behind a leading part begins at the boundary there. -/
theorem seek_chartBehind (front middle back : Text) :
    (grammar.chartBehind front (middle ++ back)).seek (Text.size (front ++ middle)) =
      grammar.chartBehind (front ++ middle) back := by
  induction middle generalizing front with
  | nil =>
    rw [List.append_nil]
    apply Chart.seek_of_le
    rw [List.nil_append, chartBehind_eq]
    simp [Chart.offset, Cursor.behind]
  | cons c rest ih =>
    have hbefore : Text.size front < Text.size (front ++ c :: rest) := by
      have hc := Char.utf8Size_pos c
      rw [Text.size_append, Text.size_cons]
      omega
    have hseek := ih (front ++ [c])
    rw [List.append_assoc, List.singleton_append] at hseek
    rw [← hseek, List.cons_append, chartBehind_eq, Chart.seek,
      List.dropWhile_cons_of_pos (by simpa [Cursor.behind] using hbefore)]
    rfl

/-- A boundary of a text leads to the chart behind the part before it. -/
theorem seek_chart (front back : Text) :
    (grammar.chart (front ++ back)).seek (Text.size front) = grammar.chartBehind front back := by
  rw [chart_eq]
  exact seek_chartBehind [] front back

/-! ## Terminals -/

/-- A text is cut after as many characters as it has at least. -/
private theorem exists_append_of_le {n : Nat} {text : Text} (h : n ≤ text.length) :
    ∃ front back, text = front ++ back ∧ front.length = n :=
  ⟨text.take n, text.drop n, (List.take_append_drop n text).symm, List.length_take_of_le h⟩

/-- The last character of a text with a non-empty end is that of the end. -/
private theorem getLast?_append_of_ne_nil {front back : Text} (h : back ≠ []) :
    (front ++ back).getLast? = back.getLast? := by
  rw [List.getLast?_append]
  cases hlast : back.getLast? with
  | none => exact absurd (List.getLast?_eq_none_iff.1 hlast) h
  | some c => rfl

/-- The first character of a text with a non-empty start is that of the start. -/
private theorem head?_append_of_ne_nil {front back : Text} (h : front ≠ []) :
    (front ++ back).head? = front.head? := by
  cases front with
  | nil => exact absurd rfl h
  | cons c rest => rfl

/-- The terminal that takes a word behind a leading part and a gap. -/
def terminalBehind (front gap word back : Text) : Terminal :=
  ⟨.behind (front ++ gap) (word ++ back), .behind (front ++ (gap ++ word)) back⟩

theorem text_terminalBehind (front gap word back : Text) :
    (terminalBehind front gap word back).text = word := by
  simp [terminalBehind, Terminal.text, Cursor.behind]

theorem span_terminalBehind (front gap word back : Text) :
    (terminalBehind front gap word back).span =
      ⟨Text.size (front ++ gap), Text.size (front ++ (gap ++ word))⟩ :=
  rfl

theorem isGlued_terminalBehind (front gap word back : Text) :
    (terminalBehind front gap word back).isGlued = true ↔
      Text.Glued (front ++ gap) word back := by
  by_cases hword : word = []
  · subst hword
    simp [Terminal.isGlued, span_terminalBehind, Span.isEmpty, Text.Glued]
  · have hsize : 0 < Text.size word := Nat.pos_of_ne_zero (mt Text.size_eq_zero_iff.1 hword)
    have hspan : (terminalBehind front gap word back).span.isEmpty = false := by
      rw [span_terminalBehind]
      simp [Span.isEmpty]
      omega
    have hbefore : (terminalBehind front gap word back).behind.before = word.getLast? := by
      change (front ++ (gap ++ word)).getLast? = word.getLast?
      rw [← List.append_assoc, getLast?_append_of_ne_nil hword]
    have hpeek : (terminalBehind front gap word back).start.peek? = word.head? :=
      head?_append_of_ne_nil hword
    rw [Terminal.isGlued, hspan, hbefore, hpeek, Text.Glued, Bool.not_false, Bool.true_and,
      Bool.or_eq_true, Bool.and_eq_true, Bool.and_eq_true, and_comm]
    rfl

/-- What may be skipped at a place is a gap behind which the text goes on. -/
theorem skipped_behind (grammar : Grammar) (front back : Text) :
    ∃ gap rest, back = gap ++ rest ∧
      (grammar.skip.length? (gap ++ rest)).getD 0 = gap.length ∧
      grammar.skipped (.behind front back) = .behind (front ++ gap) rest := by
  have hle : (grammar.skip.length? back).getD 0 ≤ back.length := by
    cases hlength : grammar.skip.length? back with
    | none => exact Nat.zero_le _
    | some n => exact Shape.length?_le hlength
  obtain ⟨gap, rest, rfl, hgap⟩ := exists_append_of_le hle
  refine ⟨gap, rest, rfl, hgap.symm, ?_⟩
  rw [skipped, ← Cursor.advance_behind, hgap]
  rfl

/-- A terminal is found at a place exactly if it stands there behind what may be skipped. -/
theorem terminal?_behind_eq_some_iff {length? : Text → Option Nat}
    (hle : ∀ {text n}, length? text = some n → n ≤ text.length) {front back : Text}
    {terminal : Terminal} :
    grammar.terminal? length? (.behind front back) = some terminal ↔
      ∃ gap word rest, grammar.Stands (front ++ back) front gap word rest ∧
        length? (word ++ rest) = some word.length ∧
        terminal = terminalBehind front gap word rest := by
  obtain ⟨gap, rest, rfl, hgap, hskipped⟩ := skipped_behind grammar front back
  have hterminal (word tail : Text) :
      Terminal.mk (.behind (front ++ gap) (word ++ tail))
        ((Cursor.behind (front ++ gap) (word ++ tail)).advance word.length) =
      terminalBehind front gap word tail := by
    rw [Cursor.advance_behind, List.append_assoc]
    rfl
  have hunglued (word tail : Text) : (terminalBehind front gap word tail).isGlued = false ↔
      ¬ Text.Glued (front ++ gap) word tail := by
    rw [← isGlued_terminalBehind, Bool.not_eq_true]
  rw [terminal?, hskipped]
  constructor
  · intro h
    cases hlength : length? rest with
    | none => simp [Cursor.behind, hlength] at h
    | some n =>
      -- What was found is a leading part of the text behind the gap.
      obtain ⟨word, tail, rfl, rfl⟩ := exists_append_of_le (hle hlength)
      simp only [show (Cursor.behind (front ++ gap) (word ++ tail)).rest = word ++ tail from rfl,
        hlength, hterminal] at h
      split at h
      · cases h
      · rename_i hglued
        rw [Bool.not_eq_true] at hglued
        exact ⟨gap, word, tail, ⟨rfl, hgap, (hunglued word tail).1 hglued⟩, hlength,
          (Option.some.inj h).symm⟩
  · rintro ⟨gap', word, tail, hstands, hlength, rfl⟩
    have hback : gap ++ rest = gap' ++ (word ++ tail) := List.append_cancel_left hstands.text_eq
    -- The gap is what is skipped, so there is only one.
    have hsame : gap.length = gap'.length := by
      rw [← hgap, hback]
      exact hstands.length_gap
    obtain ⟨rfl, rfl⟩ := List.append_inj hback hsame
    simp only [show (Cursor.behind (front ++ gap) (word ++ tail)).rest = word ++ tail from rfl,
      hlength, hterminal, (hunglued word tail).2 hstands.not_glued]
    rfl

/-- A literal is found at a place exactly if it stands there. -/
theorem literal?_behind_eq_some_iff {word front back : Text} {terminal : Terminal} :
    grammar.literal? word (.behind front back) = some terminal ↔
      ∃ gap rest, grammar.Stands (front ++ back) front gap word rest ∧
        terminal = terminalBehind front gap word rest := by
  rw [literal?, terminal?_behind_eq_some_iff Shape.word?_le]
  -- The shape of a literal is the word itself.
  have hword {found tail : Text} :
      Shape.word? word (found ++ tail) = some found.length ↔ found = word := by
    unfold Shape.word?
    constructor
    · intro h
      split at h
      · rename_i hprefix
        obtain ⟨rest, hrest⟩ := List.isPrefixOf_iff_prefix.1 hprefix
        exact (List.append_inj hrest (Option.some.inj h)).1.symm
      · cases h
    · rintro rfl
      rw [if_pos (List.isPrefixOf_iff_prefix.2 (List.prefix_append _ _))]
  constructor
  · rintro ⟨gap, found, rest, hstands, hlength, rfl⟩
    obtain rfl := hword.1 hlength
    exact ⟨gap, rest, hstands, rfl⟩
  · rintro ⟨gap, rest, hstands, rfl⟩
    exact ⟨gap, word, rest, hstands, hword.2 rfl, rfl⟩

/-- A token is found at a place exactly if a non-empty word of its shape stands there. -/
theorem token?_behind_eq_some_iff {index : Nat} {front back : Text} {terminal : Terminal} :
    grammar.token? index (.behind front back) = some terminal ↔
      ∃ token gap word rest, grammar.tokens[index]? = some token ∧
        grammar.Stands (front ++ back) front gap word rest ∧
        token.shape.length? (word ++ rest) = some word.length ∧ word ≠ [] ∧
        terminal = terminalBehind front gap word rest := by
  rw [token?]
  cases htoken : grammar.tokens[index]? with
  | none => simp
  | some token =>
    simp only [Option.some.injEq]
    rw [terminal?_behind_eq_some_iff fun h => Shape.length?_le (Option.filter_eq_some_iff.1 h).1]
    constructor
    · rintro ⟨gap, word, rest, hstands, hlength, rfl⟩
      obtain ⟨hlength, hpos⟩ := Option.filter_eq_some_iff.1 hlength
      exact ⟨token, gap, word, rest, rfl, hstands, hlength,
        List.length_pos_iff.1 (by simpa using hpos), rfl⟩
    · rintro ⟨_, gap, word, rest, rfl, hstands, hlength, hword, rfl⟩
      refine ⟨gap, word, rest, hstands, Option.filter_eq_some_iff.2 ⟨hlength, ?_⟩, rfl⟩
      simpa using List.length_pos_iff.2 hword

end Grammar

end Retrace
