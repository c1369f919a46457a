import Retrace.Proofs.Grammar.Places

/-!
# Charts fit their text

All that a chart says about a place concerns the text from there on: ends ascend, lie between two
characters of the text ahead, and only what is nullable ends where it starts (`Chart.Fits`). What a
chart gives for expressions is then of the same kind (`Chart.Fits.ends`), so rows can be filled one
entry after the other.

## Main definitions

* `Text.Ahead`: an offset between two characters of the text ahead;
* `Ends.Fit`: offsets as they can be ends of one expression from one place;
* `Chart.Fits`: all cells of a chart fit the places where they stand.
-/

namespace Retrace

/-- An offset in the text `back` ahead, which stands behind `front`. -/
def Text.Ahead (front back : Text) (offset : Nat) : Prop :=
  ∃ middle rest, back = middle ++ rest ∧ offset = Text.size (front ++ middle)

namespace Text.Ahead

variable {front back : Text} {offset : Nat}

theorem start (front back : Text) : Ahead front back (size front) :=
  ⟨[], back, rfl, by rw [List.append_nil]⟩

theorem le (h : Ahead front back offset) : size front ≤ offset := by
  obtain ⟨middle, rest, -, rfl⟩ := h
  rw [size_append]
  exact Nat.le_add_right ..

/-- What is ahead of a place further on is ahead. -/
theorem append {middle rest : Text} (h : Ahead (front ++ middle) rest offset) :
    Ahead front (middle ++ rest) offset := by
  obtain ⟨middle', rest', rfl, rfl⟩ := h
  exact ⟨middle ++ middle', rest', by rw [List.append_assoc], by rw [List.append_assoc]⟩

/-- What is ahead and not before a place further on is ahead of it. -/
theorem of_append {middle rest : Text} (h : Ahead front (middle ++ rest) offset)
    (hle : size (front ++ middle) ≤ offset) : Ahead (front ++ middle) rest offset := by
  obtain ⟨middle', rest', htext, rfl⟩ := h
  rcases List.append_eq_append_iff.1 htext with ⟨between, rfl, rfl⟩ | ⟨between, rfl, rfl⟩
  · exact ⟨between, rest', rfl, by rw [List.append_assoc]⟩
  · -- Nothing can be between the two places.
    simp only [size_append] at hle
    obtain rfl : between = [] := size_eq_zero_iff.1 (by omega)
    rw [List.append_nil]
    exact .start (front ++ middle') ([] ++ rest)

end Text.Ahead

/-- Ascending offsets in the text ahead; the first place is among them only under a condition. -/
structure Ends.Fit (front back : Text) (mayBeEmpty : Prop) (offsets : List Nat) : Prop where
  /-- The offsets ascend. -/
  ascending : offsets.Pairwise (· < ·)
  /-- The offsets lie in the text ahead. -/
  ahead : ∀ {offset}, offset ∈ offsets → Text.Ahead front back offset
  /-- The first place is among them only under the condition. -/
  mayBeEmpty : Text.size front ∈ offsets → mayBeEmpty

namespace Ends.Fit

variable {grammar : Grammar} {front back : Text} {mayBeEmpty mayBeEmpty' : Prop}
  {offsets others : List Nat}

theorem nil : Fit front back mayBeEmpty [] :=
  ⟨List.Pairwise.nil, fun h => (List.not_mem_nil h).elim, fun h => (List.not_mem_nil h).elim⟩

theorem start (front back : Text) : Fit front back True [Text.size front] := by
  refine ⟨List.pairwise_singleton .., fun h => ?_, fun _ => trivial⟩
  rw [List.mem_singleton.1 h]
  exact .start front back

theorem mono (h : Fit front back mayBeEmpty offsets) (himp : mayBeEmpty → mayBeEmpty') :
    Fit front back mayBeEmpty' offsets :=
  ⟨h.ascending, h.ahead, fun hmem => himp (h.mayBeEmpty hmem)⟩

theorem insert (h : Fit front back mayBeEmpty offsets) :
    Fit front back True (Ends.insert (Text.size front) offsets) := by
  refine ⟨pairwise_insert h.ascending, fun hmem => ?_, fun _ => trivial⟩
  rcases mem_insert.1 hmem with rfl | hmem
  · exact .start front back
  · exact h.ahead hmem

/-- A terminal ends ahead; where it starts only if it is empty. -/
theorem terminal {gap word rest : Text}
    (h : grammar.Stands (front ++ back) front gap word rest) (hempty : word = [] → mayBeEmpty) :
    Fit front back mayBeEmpty [(Grammar.terminalBehind front gap word rest).span.stop] := by
  refine ⟨List.pairwise_singleton .., fun hmem => ?_, fun hmem => hempty ?_⟩
  · obtain rfl := List.mem_singleton.1 hmem
    refine ⟨gap ++ word, rest, ?_, rfl⟩
    rw [List.append_assoc]
    exact List.append_cancel_left h.text_eq
  · have hstop : Text.size front = Text.size (front ++ (gap ++ word)) := List.mem_singleton.1 hmem
    rw [← Text.size_eq_zero_iff]
    simp only [Text.size_append] at hstop
    omega

theorem union (h : Fit front back mayBeEmpty offsets) (h' : Fit front back mayBeEmpty' others) :
    Fit front back (mayBeEmpty ∨ mayBeEmpty') (Ends.union offsets others) := by
  refine ⟨pairwise_union h'.ascending, fun hmem => ?_, fun hmem => ?_⟩
  · exact (mem_union.1 hmem).elim h.ahead h'.ahead
  · exact (mem_union.1 hmem).imp h.mayBeEmpty h'.mayBeEmpty

end Ends.Fit

namespace Chart

variable {ends : Chart → List Nat} {chart : Chart} {reached : List Nat}

theorem ascending_spread (ends : Chart → List Nat) (chart : Chart) (reached : List Nat) :
    (chart.spread ends reached).Pairwise (· < ·) := by
  induction reached generalizing chart with
  | nil => exact List.Pairwise.nil
  | cons offset later ih => exact Ends.pairwise_union (ih (chart.seek offset))

/-- Spreading takes together what is given at each of the offsets. -/
theorem mem_spread (h : reached.Pairwise (· < ·)) {stop : Nat} :
    stop ∈ chart.spread ends reached ↔ ∃ offset ∈ reached, stop ∈ ends (chart.seek offset) := by
  induction reached generalizing chart with
  | nil => simp [spread]
  | cons offset later ih =>
    obtain ⟨hoffset, hlater⟩ := List.pairwise_cons.1 h
    rw [spread, Ends.mem_union, ih hlater]
    simp only [List.mem_cons, exists_eq_or_imp]
    refine or_congr_right (exists_congr fun other => and_congr_right fun hother => ?_)
    rw [seek_seek (Nat.le_of_lt (hoffset other hother))]

end Chart

/-! ## Charts that fit -/

/-- What a row says fits its place. -/
structure Row.Fits (grammar : Grammar) (front back : Text) (row : Row) : Prop where
  /-- The row is about this place. -/
  cursor_eq : row.cursor = .behind front back
  /-- Ends of rules fit; only nullable rules end where they start. -/
  rule : ∀ {index cell}, row.rules.lookup index = some cell →
    Ends.Fit front back (LeftRecursion.Nullable grammar.bodies (.call (.rule index))) cell.ends.get
  /-- Repetitions that iterate end further ahead. -/
  loop : ∀ {label table}, row.loops.lookup label = some table →
    Ends.Fit front back False table.get.keys

/-- What a chart says about a place and all later ones fits these places. -/
inductive Chart.Fits (grammar : Grammar) : (front back : Text) → Chart → Prop
  | last {front : Text} {row : Row} : row.Fits grammar front [] → Fits grammar front [] [row]
  | row {front rest : Text} {c : Char} {row : Row} {later : Chart} :
      row.Fits grammar front (c :: rest) → Fits grammar (front ++ [c]) rest later →
      Fits grammar front (c :: rest) (row :: later)

namespace Chart.Fits

variable {grammar : Grammar} {front back : Text} {chart later : Chart} {row : Row}

/-- The first row of a chart that fits is about the first place. -/
theorem exists_row (h : chart.Fits grammar front back) :
    ∃ row later, chart = row :: later ∧ row.Fits grammar front back := by
  cases h with
  | last hrow => exact ⟨_, _, rfl, hrow⟩
  | row hrow _ => exact ⟨_, _, rfl, hrow⟩

theorem offset_eq (h : chart.Fits grammar front back) : chart.offset = Text.size front := by
  obtain ⟨row, later, rfl, hrow⟩ := h.exists_row
  rw [offset, hrow.cursor_eq]
  rfl

theorem left_eq (h : chart.Fits grammar front back) : chart.left = back.length := by
  obtain ⟨row, later, rfl, hrow⟩ := h.exists_row
  rw [left, hrow.cursor_eq]
  rfl

/-- The part of a chart from an offset ahead on fits the place there. -/
theorem seek {middle rest : Text} (h : chart.Fits grammar front (middle ++ rest)) :
    (chart.seek (Text.size (front ++ middle))).Fits grammar (front ++ middle) rest := by
  induction middle generalizing front chart with
  | nil =>
    rw [List.append_nil, seek_of_le (Nat.le_of_eq h.offset_eq.symm)]
    exact h
  | cons c middle ih =>
    cases h with
    | row hrow hlater =>
      rename_i row later
      have hseek := ih hlater
      have hbefore : row.cursor.offset < Text.size (front ++ c :: middle) := by
        have hc := Char.utf8Size_pos c
        rw [hrow.cursor_eq, Text.size_append, Text.size_cons]
        simp only [Cursor.behind]
        omega
      rw [List.append_assoc, List.singleton_append] at hseek
      rw [Chart.seek, List.dropWhile_cons_of_pos (by simpa using hbefore)]
      exact hseek

theorem ruleEnds (h : chart.Fits grammar front back) (index : Nat) :
    Ends.Fit front back (LeftRecursion.Nullable grammar.bodies (.call (.rule index)))
      (chart.ruleEnds index) := by
  obtain ⟨row, later, rfl, hrow⟩ := h.exists_row
  rw [Chart.ruleEnds]
  split
  · exact hrow.rule ‹_›
  · exact .nil

theorem loopEnds (h : chart.Fits grammar front back) (label : Nat) :
    Ends.Fit front back False (chart.loopEnds label).keys := by
  obtain ⟨row, later, rfl, hrow⟩ := h.exists_row
  rw [Chart.loopEnds]
  split
  · exact hrow.loop ‹_›
  · exact .nil

/-- Repetitions that iterate end behind their start. -/
theorem lt_of_mem_loopEnds (h : chart.Fits grammar front back) {label stop : Nat}
    (hstop : stop ∈ chart.loopEnds label) : chart.offset < stop := by
  rw [← Std.TreeMap.mem_keys] at hstop
  have hfit := h.loopEnds label
  rw [h.offset_eq]
  refine Nat.lt_of_le_of_ne (hfit.ahead hstop).le fun heq => ?_
  rw [← heq] at hstop
  exact hfit.mayBeEmpty hstop

theorem literalEnds (h : chart.Fits grammar front back) (word : Text) :
    Ends.Fit front back (LeftRecursion.Nullable grammar.bodies (.literal word))
      (chart.terminalEnds (grammar.literal? word)) := by
  obtain ⟨row, later, rfl, hrow⟩ := h.exists_row
  rw [terminalEnds, terminal?, hrow.cursor_eq]
  split
  · rename_i terminal hfound
    obtain ⟨gap, rest, hstands, rfl⟩ := Grammar.literal?_behind_eq_some_iff.1 hfound
    exact .terminal hstands fun hword => hword ▸ .literal
  · exact .nil

theorem tokenEnds (h : chart.Fits grammar front back) (index : Nat) :
    Ends.Fit front back False (chart.terminalEnds (grammar.token? index)) := by
  obtain ⟨row, later, rfl, hrow⟩ := h.exists_row
  rw [terminalEnds, terminal?, hrow.cursor_eq]
  split
  · rename_i terminal hfound
    obtain ⟨token, gap, word, rest, -, hstands, -, hword, rfl⟩ :=
      Grammar.token?_behind_eq_some_iff.1 hfound
    exact .terminal hstands hword
  · exact .nil

/-- What is spread from offsets ahead fits, if what is spread does at each of them. -/
theorem spread {ends : Chart → List Nat} {mayBeEmpty mayBeEmpty' : Prop} {reached : List Nat}
    (hends : ∀ {middle rest}, back = middle ++ rest → Ends.Fit (front ++ middle) rest mayBeEmpty
      (ends (chart.seek (Text.size (front ++ middle)))))
    (hreached : Ends.Fit front back mayBeEmpty' reached) :
    Ends.Fit front back (mayBeEmpty ∧ mayBeEmpty') (chart.spread ends reached) := by
  refine ⟨ascending_spread .., fun hmem => ?_, fun hmem => ?_⟩
  · obtain ⟨offset, hoffset, hstop⟩ := (mem_spread hreached.ascending).1 hmem
    obtain ⟨middle, rest, rfl, rfl⟩ := hreached.ahead hoffset
    exact ((hends rfl).ahead hstop).append
  · obtain ⟨offset, hoffset, hstop⟩ := (mem_spread hreached.ascending).1 hmem
    obtain ⟨middle, rest, rfl, rfl⟩ := hreached.ahead hoffset
    -- Both steps stay at the first place.
    have hle := ((hends rfl).ahead hstop).le
    obtain rfl : middle = [] := by
      rw [← Text.size_eq_zero_iff]
      rw [Text.size_append] at hle
      omega
    rw [List.append_nil] at hoffset hstop
    exact ⟨(@hends [] rest rfl).mayBeEmpty (by simpa using hstop), hreached.mayBeEmpty hoffset⟩

/-- What a chart that fits gives for the items of a sequence fits, if it does for each of them. -/
theorem endsSeq (h : chart.Fits grammar front back) {items : List Production} {mayBeEmpty : Prop}
    {reached : List Nat}
    (hitems : ∀ item ∈ items, ∀ {front back chart}, chart.Fits grammar front back →
      Ends.Fit front back (LeftRecursion.Nullable grammar.bodies item) (item.ends grammar chart))
    (hreached : Ends.Fit front back mayBeEmpty reached) :
    Ends.Fit front back
      (mayBeEmpty ∧ ∀ item ∈ items, LeftRecursion.Nullable grammar.bodies item)
      (Expr.endsSeq grammar items chart reached) := by
  induction items generalizing mayBeEmpty reached with
  | nil => exact hreached.mono fun h => ⟨h, fun _ hmem => (List.not_mem_nil hmem).elim⟩
  | cons first items ih =>
    -- The places reached behind the first item are those from which the others begin.
    rw [Expr.endsSeq]
    have hfirst := spread (fun hback => hitems first List.mem_cons_self (seek (hback ▸ h))) hreached
    refine (ih (fun item hitem => hitems item (List.mem_cons_of_mem _ hitem)) hfirst).mono ?_
    rintro ⟨⟨hfirst, hreached⟩, hothers⟩
    exact ⟨hreached, List.forall_mem_cons.2 ⟨hfirst, hothers⟩⟩

/-- What a chart that fits gives for alternatives fits, if it does for each of them. -/
theorem endsEither {branches : List Production} {mayBeEmpty : Prop}
    (hbranches : ∀ branch ∈ branches, Ends.Fit front back mayBeEmpty (branch.ends grammar chart)) :
    Ends.Fit front back mayBeEmpty (Expr.endsEither grammar branches chart) := by
  induction branches with
  | nil => exact .nil
  | cons branch branches ih =>
    obtain ⟨hbranch, hothers⟩ := List.forall_mem_cons.1 hbranches
    rw [Expr.endsEither]
    exact (hbranch.union (ih hothers)).mono (Or.elim · id id)

/-- What a chart that fits gives for an expression fits. -/
theorem ends (h : chart.Fits grammar front back) (expr : Production) :
    Ends.Fit front back (LeftRecursion.Nullable grammar.bodies expr) (expr.ends grammar chart) := by
  induction expr using Expr.ind generalizing front back chart with
  | literal word => exact h.literalEnds word
  | call target =>
    cases target with
    | token index => exact (h.tokenEnds index).mono False.elim
    | rule index => exact h.ruleEnds index
  | seq items ih =>
    rw [Expr.ends, h.offset_eq]
    exact (h.endsSeq ih (.start front back)).mono fun h => .seq h.2
  | either branches ih =>
    rw [Expr.ends]
    exact endsEither fun branch hbranch => (ih branch hbranch h).mono (.either hbranch)
  | optional body ih =>
    rw [Expr.ends, h.offset_eq]
    exact (ih h).insert.mono fun _ => .optional body
  | loop label body =>
    rw [Expr.ends, h.offset_eq]
    exact (h.loopEnds label).insert.mono fun _ => .loop label body

end Chart.Fits

end Retrace
