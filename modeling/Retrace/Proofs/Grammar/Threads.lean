import Retrace.Proofs.Grammar.Rows

/-!
# Evaluating at the places of a text

On the chart of a whole text every place is found by its offset, so what an expression gives can be
said for offsets alone. Sequences thread their items from offset to offset (`Chart.Threads`),
alternatives give what one of them gives, repetitions lead along trails of iterations that read
something (`Grammar.Compiled.exists_cuts`, `Grammar.Compiled.mem_ends_loop_of_trail`).

## Main definitions

* `Grammar.Contains`: an expression is evaluated for a grammar;
* `Chart.Threads`: the items of a sequence lead from one offset to another.
-/

namespace Retrace

/-- An expression that is evaluated: a call of a rule, or one in the body of a rule. -/
inductive Grammar.Contains (grammar : Grammar) : Production → Prop
  | call {index : Nat} : index < grammar.rules.size → Contains grammar (.call (.rule index))
  | part {rule : Rule} {expr : Production} : rule ∈ grammar.rules.toList → rule.body.Part expr →
      Contains grammar expr

namespace Grammar.Contains

variable {grammar : Grammar}

theorem child {expr part : Production} (h : grammar.Contains expr) (hpart : part ∈ expr.children) :
    grammar.Contains part := by
  cases h with
  | call => cases hpart
  | part hrule hexpr => exact .part hrule (hexpr.child hpart)

theorem body {index : Nat} {rule : Rule} (hrule : grammar.rules[index]? = some rule) :
    grammar.Contains rule.body :=
  .part (Array.mem_toList_iff.2 (Array.mem_of_getElem? hrule)) .self

theorem mem_loops {label : Nat} {body : Production} (h : grammar.Contains (.loop label body)) :
    (label, body) ∈ loops grammar.rules.toList := by
  cases h with
  | part hrule hpart => exact Compiled.mem_loops hrule hpart

end Grammar.Contains

namespace Chart

/-- The items of a sequence lead from one offset of a chart to another. -/
def Threads (grammar : Grammar) (chart : Chart) :
    List Production → (start stop : Nat) → Prop
  | [], start, stop => start = stop
  | item :: items, start, stop =>
    ∃ middle ∈ item.ends grammar (chart.seek start), Threads grammar chart items middle stop

variable {grammar : Grammar} {chart : Chart}

/-- A sequence can end where its items lead from one of the offsets reached so far. -/
theorem mem_endsSeq {items : List Production} {reached : List Nat} {stop : Nat}
    (h : reached.Pairwise (· < ·)) :
    stop ∈ Expr.endsSeq grammar items chart reached ↔
      ∃ offset ∈ reached, chart.Threads grammar items offset stop := by
  induction items generalizing reached with
  | nil => simp [Expr.endsSeq, Threads]
  | cons item items ih =>
    rw [Expr.endsSeq, ih (ascending_spread ..)]
    constructor
    · rintro ⟨middle, hmiddle, hthreads⟩
      obtain ⟨offset, hoffset, hmem⟩ := (mem_spread h).1 hmiddle
      exact ⟨offset, hoffset, middle, hmem, hthreads⟩
    · rintro ⟨offset, hoffset, middle, hmem, hthreads⟩
      exact ⟨middle, (mem_spread h).2 ⟨offset, hoffset, hmem⟩, hthreads⟩

theorem mem_endsEither {branches : List Production} {stop : Nat} :
    stop ∈ Expr.endsEither grammar branches chart ↔
      ∃ branch ∈ branches, stop ∈ branch.ends grammar chart := by
  induction branches with
  | nil => simp [Expr.endsEither]
  | cons branch branches ih => simp [Expr.endsEither, Ends.mem_union, ih]

/-- A trail is the same on the part of a chart that begins no further ahead. -/
theorem trail_seek_iff {ends : Chart → List Nat} {start offset stop : Nat} {stops : List Nat}
    (hle : start ≤ offset) :
    Trail ends (chart.seek start) offset stops stop ↔ Trail ends chart offset stops stop := by
  -- Behind the place to which the chart was cut, nothing was cut off.
  have hstep {offset stop : Nat} (hle : start ≤ offset) :
      Step ends (chart.seek start) offset stop ↔ Step ends chart offset stop := by
    constructor
    · rintro ⟨hlt, hmem⟩
      rw [seek_seek hle] at hmem
      exact ⟨hlt, hmem⟩
    · rintro ⟨hlt, hmem⟩
      rw [← seek_seek hle] at hmem
      exact ⟨hlt, hmem⟩
  constructor
  · intro h
    induction h with
    | nil => exact .nil _
    | cons hfirst _ ih =>
      exact .cons ((hstep hle).1 hfirst) (ih (Nat.le_trans hle (Nat.le_of_lt hfirst.lt)))
  · intro h
    induction h with
    | nil => exact .nil _
    | cons hfirst _ ih =>
      exact .cons ((hstep hle).2 hfirst) (ih (Nat.le_trans hle (Nat.le_of_lt hfirst.lt)))

end Chart

namespace Grammar.Compiled

variable {grammar : Grammar} {text front back : Text} {start stop : Nat}

/-- Rules that are called on the left exist. -/
theorem lt_of_leads (h : grammar.Compiled) {expr : Production} (hexpr : grammar.Contains expr)
    {index : Nat} (hleads : LeftRecursion.Leads grammar.bodies expr index) :
    index < grammar.rules.size := by
  cases hexpr with
  | call hindex =>
    cases hleads
    exact hindex
  | part hrule hpart => exact h.call_lt hrule (hpart.trans hleads.part)

/-- The chart of a text fits from any of its boundaries on. -/
theorem fits_seek (h : grammar.Compiled) (front back : Text) :
    ((grammar.chart (front ++ back)).seek (Text.size front)).Fits grammar front back := by
  rw [seek_chart]
  exact h.fits front back

theorem offset_seek (h : grammar.Compiled) (hstart : text.IsBoundary start) :
    ((grammar.chart text).seek start).offset = start := by
  obtain ⟨front, back, rfl, rfl⟩ := Text.isBoundary_iff.1 hstart
  exact (h.fits_seek front back).offset_eq

/-- What is evaluated between two characters ends between two characters, and not before. -/
theorem le_and_isBoundary_of_mem_ends (h : grammar.Compiled) (hstart : text.IsBoundary start)
    {expr : Production} (hstop : stop ∈ expr.ends grammar ((grammar.chart text).seek start)) :
    start ≤ stop ∧ text.IsBoundary stop := by
  obtain ⟨front, back, rfl, rfl⟩ := Text.isBoundary_iff.1 hstart
  have hahead := ((h.fits_seek front back).ends expr).ahead hstop
  refine ⟨hahead.le, ?_⟩
  obtain ⟨middle, rest, rfl, rfl⟩ := hahead
  exact Text.isBoundary_iff.2 ⟨front ++ middle, rest, by rw [List.append_assoc], rfl⟩

/-- Only what is nullable ends where it starts. -/
theorem nullable_of_mem_ends (h : grammar.Compiled) (hstart : text.IsBoundary start)
    {expr : Production} (hmem : start ∈ expr.ends grammar ((grammar.chart text).seek start)) :
    LeftRecursion.Nullable grammar.bodies expr := by
  obtain ⟨front, back, rfl, rfl⟩ := Text.isBoundary_iff.1 hstart
  exact ((h.fits_seek front back).ends expr).mayBeEmpty hmem

theorem le_of_threads (h : grammar.Compiled) (hstart : text.IsBoundary start)
    {items : List Production} (hthreads : (grammar.chart text).Threads grammar items start stop) :
    start ≤ stop := by
  induction items generalizing start with
  | nil => exact Nat.le_of_eq hthreads
  | cons item items ih =>
    obtain ⟨middle, hmiddle, hthreads⟩ := hthreads
    obtain ⟨hle, hboundary⟩ := h.le_and_isBoundary_of_mem_ends hstart hmiddle
    exact Nat.le_trans hle (ih hboundary hthreads)

/-- Items lead to the same offsets on the part of the chart that begins no further ahead. -/
theorem threads_seek_iff (h : grammar.Compiled) {first : Nat} (hle : first ≤ start)
    (hstart : text.IsBoundary start) {items : List Production} :
    ((grammar.chart text).seek first).Threads grammar items start stop ↔
      (grammar.chart text).Threads grammar items start stop := by
  induction items generalizing start with
  | nil => rfl
  | cons item items ih =>
    rw [Chart.Threads, Chart.Threads, Chart.seek_seek hle]
    refine exists_congr fun middle => and_congr_right fun hmiddle => ?_
    obtain ⟨hle', hboundary⟩ := h.le_and_isBoundary_of_mem_ends hstart hmiddle
    exact ih (Nat.le_trans hle hle') hboundary

/-- A sequence can end where its items lead. -/
theorem mem_endsSeq_iff (h : grammar.Compiled) (hstart : text.IsBoundary start)
    {items : List Production} :
    stop ∈ Expr.endsSeq grammar items ((grammar.chart text).seek start) [start] ↔
      (grammar.chart text).Threads grammar items start stop := by
  rw [Chart.mem_endsSeq (List.pairwise_singleton ..), ← h.threads_seek_iff (Nat.le_refl _) hstart]
  simp

/-- What is recorded for a repetition at a place is what its body iterates to from there. -/
theorem loopEnds_seek (h : grammar.Compiled) {label : Nat} {body : Production}
    (hbody : grammar.Contains (.loop label body)) (front back : Text) :
    ((grammar.chart (front ++ back)).seek (Text.size front)).loopEnds label =
      Chart.iterate (fun here => body.ends grammar here)
        ((grammar.chart (front ++ back)).seek (Text.size front)) := by
  rw [seek_chart, h.loopEnds_eq hbody.mem_loops]

/-- What an expression gives from any place on lies ahead of that place. -/
theorem endsAhead_seek (h : grammar.Compiled) (expr : Production) (front back : Text) :
    Chart.EndsAhead (fun here => expr.ends grammar here)
      ((grammar.chart (front ++ back)).seek (Text.size front)) front back := by
  intro middle rest hback
  subst hback
  exact ((h.fits_seek front (middle ++ rest)).seek.ends expr).ahead

/-- A repetition is searched until nothing waits. -/
theorem explored_loopEnds (h : grammar.Compiled) {label : Nat} {body : Production}
    (hbody : grammar.Contains (.loop label body)) (front back : Text) :
    Chart.Explored (fun here => body.ends grammar here)
      ((grammar.chart (front ++ back)).seek (Text.size front)) front back []
      (((grammar.chart (front ++ back)).seek (Text.size front)).loopEnds label) := by
  rw [h.loopEnds_seek hbody]
  exact Chart.explored_iterate (h.fits_seek front back) (h.endsAhead_seek body front back)

/-- The iterations of a repetition that lead to an end are found. -/
theorem exists_cuts (h : grammar.Compiled) {label : Nat} {body : Production}
    (hbody : grammar.Contains (.loop label body)) (hstart : text.IsBoundary start)
    (hstop : stop ∈ (Expr.loop label body).ends grammar ((grammar.chart text).seek start)) :
    ∃ stops, Chart.cuts (((grammar.chart text).seek start).loopEnds label) start
        (((grammar.chart text).seek start).left + 1) stop [] = some stops ∧
      Chart.Trail (fun here => body.ends grammar here) (grammar.chart text) start stops stop := by
  obtain ⟨front, back, rfl, rfl⟩ := Text.isBoundary_iff.1 hstart
  have hexplored := h.explored_loopEnds hbody front back
  rw [Expr.ends, h.offset_seek hstart, Ends.mem_insert, Std.TreeMap.mem_keys] at hstop
  obtain ⟨stops, hcuts, htrail⟩ := hexplored.exists_cuts (h.fits_seek front back) hstop
    (Nat.le_trans (Nat.le_succ _) (Nat.le_add_right ..)) (.nil stop)
  exact ⟨stops, hcuts, (Chart.trail_seek_iff (Nat.le_refl _)).1 htrail⟩

/-- A repetition can end where its iterations lead. -/
theorem mem_ends_loop_of_trail (h : grammar.Compiled) {label : Nat} {body : Production}
    (hbody : grammar.Contains (.loop label body)) (hstart : text.IsBoundary start)
    {stops : List Nat} (htrail : Chart.Trail (fun here => body.ends grammar here)
      (grammar.chart text) start stops stop) :
    stop ∈ (Expr.loop label body).ends grammar ((grammar.chart text).seek start) := by
  obtain ⟨front, back, rfl, rfl⟩ := Text.isBoundary_iff.1 hstart
  have hexplored := h.explored_loopEnds hbody front back
  rw [Expr.ends, h.offset_seek hstart, Ends.mem_insert, Std.TreeMap.mem_keys]
  exact hexplored.mem_of_trail ((Chart.trail_seek_iff (Nat.le_refl _)).2 htrail) (Or.inl rfl)

end Grammar.Compiled

end Retrace
