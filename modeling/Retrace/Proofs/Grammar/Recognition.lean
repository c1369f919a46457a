import Retrace.Proofs.Grammar.Threads

/-!
# What is derived is what is found

On the chart of a text, an expression can end exactly where it has a derivation that ends there.
That no derivation is missed follows by induction on derivations
(`Grammar.Compiled.leads_of_yields`); that every end found can be built into items that are derived,
by induction on the place, then on calls on the left, then on the expression
(`Grammar.Compiled.isBuilt`).

## Main definitions

* `Form.Leads`: what a chart says about where a form leads;
* `Grammar.IsBuilt`: every end that is found is built into a derivation.
-/

namespace Retrace

/-- On the chart of a text, a form leads from one offset to another. -/
def Form.Leads (grammar : Grammar) (text : Text) : Form → (start stop : Nat) → Prop
  | .expr whole, start, stop => stop ∈ whole.ends grammar ((grammar.chart text).seek start)
  | .items several, start, stop => (grammar.chart text).Threads grammar several start stop
  | .rounds body, start, stop =>
    ∃ stops, Chart.Trail (fun here => body.ends grammar here) (grammar.chart text) start stops stop

/-- All expressions of a form stand in rules; iterations are those of a repetition there. -/
def Form.Within (grammar : Grammar) : Form → Prop
  | .expr whole => grammar.Contains whole
  | .items several => ∀ item ∈ several, grammar.Contains item
  | .rounds body => ∃ label, grammar.Contains (.loop label body)

/-- Wherever an expression can end, something is built, and it is derived. -/
def Grammar.IsBuilt (grammar : Grammar) (text : Text) (expr : Production)
    (start : Nat) : Prop :=
  ∀ stop ∈ expr.ends grammar ((grammar.chart text).seek start),
    ∃ items, expr.build grammar ((grammar.chart text).seek start) stop = some items ∧
      grammar.Yields text (.expr expr) start stop items

namespace Grammar.Compiled

variable {grammar : Grammar} {text front back : Text} {start stop : Nat}

theorem terminal?_seek (front back : Text) (find : Cursor → Option Terminal) :
    ((grammar.chart (front ++ back)).seek (Text.size front)).terminal? find =
      find (.behind front back) := by
  rw [seek_chart, chartBehind_eq, Chart.terminal?, Row.cursor_ofCursor]

/-- No derivation is missed: where a form derives, the chart leads. -/
theorem leads_of_yields (h : grammar.Compiled) {form : Form}
    {children : List (Option ParseTree)} (hyields : grammar.Yields text form start stop children)
    (hform : form.Within grammar) (hstart : text.IsBoundary start) :
    form.Leads grammar text start stop := by
  induction hyields with
  | @literal front gap word back hstands =>
    obtain rfl := hstands.text_eq
    have hfound := literal?_behind_eq_some_iff.2 ⟨gap, back, hstands, rfl⟩
    simp only [Form.Leads, Expr.ends, Chart.terminalEnds]
    rw [terminal?_seek, hfound]
    exact List.mem_singleton.2 rfl
  | @token index token front gap word back htoken hlength hword hstands =>
    obtain rfl := hstands.text_eq
    have hfound := token?_behind_eq_some_iff.2
      ⟨token, gap, word, back, htoken, hstands, hlength, hword, rfl⟩
    simp only [Form.Leads, Expr.ends, Chart.terminalEnds]
    rw [terminal?_seek, hfound]
    exact List.mem_singleton.2 rfl
  | @rule index rule start stop children hrule _ ih =>
    have hbody := ih (Contains.body hrule) hstart
    obtain ⟨front, back, rfl, rfl⟩ := Text.isBoundary_iff.1 hstart
    simp only [Form.Leads, Expr.ends] at hbody ⊢
    rw [seek_chart] at hbody ⊢
    rw [h.ruleEnds_eq hrule]
    exact hbody
  | @seq items start stop _ _ ih =>
    have hthreads := ih (fun item hitem => hform.child hitem) hstart
    simp only [Form.Leads, Expr.ends] at hthreads ⊢
    rw [h.offset_seek hstart]
    exact (h.mem_endsSeq_iff hstart).2 hthreads
  | either hbranch _ ih =>
    have hends := ih (hform.child hbranch) hstart
    simp only [Form.Leads, Expr.ends] at hends ⊢
    exact Chart.mem_endsEither.2 ⟨_, hbranch, hends⟩
  | absent body start =>
    simp only [Form.Leads, Expr.ends]
    rw [h.offset_seek hstart]
    exact Ends.mem_insert.2 (Or.inl rfl)
  | present _ ih =>
    have hends := ih (hform.child List.mem_cons_self) hstart
    simp only [Form.Leads, Expr.ends] at hends ⊢
    exact Ends.mem_insert.2 (Or.inr hends)
  | @loop label _ _ _ _ _ ih =>
    -- The iterations lead to the end, so the search has found it.
    obtain ⟨stops, htrail⟩ := ih ⟨label, hform⟩ hstart
    exact h.mem_ends_loop_of_trail hform hstart htrail
  | noItem start => exact (rfl : start = start)
  | item hfirst _ ihfirst ihlater =>
    obtain ⟨hitem, hitems⟩ : grammar.Contains _ ∧ ∀ item ∈ _, grammar.Contains item :=
      List.forall_mem_cons.1 hform
    exact ⟨_, ihfirst hitem hstart, ihlater hitems (hfirst.isBoundary hstart)⟩
  | noRound body start => exact ⟨[], .nil start⟩
  | @round body start middle stop _ _ hfirst hlater ihfirst ihlater =>
    obtain ⟨label, hloop⟩ := hform
    obtain ⟨stops, htrail⟩ := ihlater ⟨label, hloop⟩ (hfirst.isBoundary hstart)
    rcases Nat.lt_or_eq_of_le hfirst.le with hlt | rfl
    · exact ⟨_, .cons ⟨hlt, ihfirst (hloop.child List.mem_cons_self) hstart⟩ htrail⟩
    · -- An iteration that reads nothing is left out.
      exact ⟨stops, htrail⟩

/-! ## Every end is built into a derivation -/

/-- What is found for a terminal is built into a leaf. -/
theorem exists_of_mem_terminalEnds {find : Cursor → Option Terminal}
    (hstop : stop ∈ ((grammar.chart (front ++ back)).seek (Text.size front)).terminalEnds find) :
    ∃ terminal, find (.behind front back) = some terminal ∧ terminal.span.stop = stop := by
  rw [Chart.terminalEnds, terminal?_seek] at hstop
  split at hstop
  · rename_i terminal hfound
    exact ⟨terminal, hfound, (List.mem_singleton.1 hstop).symm⟩
  · cases hstop

theorem isBuilt_literal (word : Text) (hstart : text.IsBoundary start) :
    grammar.IsBuilt text (.literal word) start := by
  intro stop hstop
  obtain ⟨front, back, rfl, rfl⟩ := Text.isBoundary_iff.1 hstart
  rw [Expr.ends] at hstop
  obtain ⟨terminal, hfound, rfl⟩ := exists_of_mem_terminalEnds hstop
  obtain ⟨gap, rest, hstands, rfl⟩ := literal?_behind_eq_some_iff.1 hfound
  refine ⟨_, ?_, .literal hstands⟩
  rw [Expr.build, terminal?_seek, hfound]
  simp [text_terminalBehind, span_terminalBehind]

theorem isBuilt_token (index : Nat) (hstart : text.IsBoundary start) :
    grammar.IsBuilt text (.call (.token index)) start := by
  intro stop hstop
  obtain ⟨front, back, rfl, rfl⟩ := Text.isBoundary_iff.1 hstart
  rw [Expr.ends] at hstop
  obtain ⟨terminal, hfound, rfl⟩ := exists_of_mem_terminalEnds hstop
  obtain ⟨token, gap, word, rest, htoken, hstands, hlength, hword, rfl⟩ :=
    token?_behind_eq_some_iff.1 hfound
  refine ⟨_, ?_, .token htoken hlength hword hstands⟩
  rw [Expr.build, terminal?_seek, hfound]
  simp [text_terminalBehind, span_terminalBehind, tokenName, htoken]

/-- A sequence is built wherever its items lead, if they are built further ahead, and at the start
those behind nullable ones are. -/
theorem buildSeq_of_threads (h : grammar.Compiled) {items : List Production}
    (hstart : text.IsBoundary start)
    (hlater : ∀ item ∈ items, ∀ {place}, text.IsBoundary place → start < place →
      grammar.IsBuilt text item place)
    (hhere : ∀ item ∈ Expr.leading (LeftRecursion.isNullableRule grammar.bodies) items,
      grammar.IsBuilt text item start)
    (hthreads : (grammar.chart text).Threads grammar items start stop) :
    ∃ children, Expr.buildSeq grammar items ((grammar.chart text).seek start) stop = some children ∧
      grammar.Yields text (.items items) start stop children := by
  induction items generalizing start with
  | nil =>
    obtain rfl : start = stop := hthreads
    rw [Expr.buildSeq, h.offset_seek hstart, if_pos rfl]
    exact ⟨[], rfl, .noItem start⟩
  | cons item items ih =>
    -- Where the others still lead to the end is where the search for a middle looks.
    have hrest {middle : Nat}
        (hmem : middle ∈ item.ends grammar ((grammar.chart text).seek start)) :
        stop ∈ Expr.endsSeq grammar items (((grammar.chart text).seek start).seek middle) [middle] ↔
          (grammar.chart text).Threads grammar items middle stop := by
      obtain ⟨hle, hmiddle⟩ := h.le_and_isBoundary_of_mem_ends hstart hmem
      rw [Chart.seek_seek hle, h.mem_endsSeq_iff hmiddle]
    obtain ⟨first, hfirst, hthreads⟩ := hthreads
    have hfirstle := h.le_of_threads (h.le_and_isBoundary_of_mem_ends hstart hfirst).2 hthreads
    rw [Expr.buildSeq]
    split
    · rename_i middle hmiddle
      have hmem := List.mem_reverse.1 (List.mem_of_find?_eq_some hmiddle)
      have hfound := List.find?_some hmiddle
      rw [Bool.and_eq_true, List.contains_iff_mem, hrest hmem] at hfound
      obtain ⟨hle, hboundary⟩ := h.le_and_isBoundary_of_mem_ends hstart hmem
      obtain ⟨front, hfront, hyields⟩ := hhere item List.mem_cons_self middle hmem
      have hitems : ∀ other ∈ items, ∀ {place}, text.IsBoundary place → middle < place →
          grammar.IsBuilt text other place := fun other hother _ hplace hlt =>
        hlater other (List.mem_cons_of_mem _ hother) hplace (Nat.lt_of_le_of_lt hle hlt)
      -- If the first item reads nothing it is nullable, so the next one leads as well.
      have hleading : ∀ other ∈ Expr.leading (LeftRecursion.isNullableRule grammar.bodies) items,
          grammar.IsBuilt text other middle := by
        intro other hother
        rcases Nat.lt_or_eq_of_le hle with hlt | rfl
        · exact hlater other (List.mem_cons_of_mem _ (Expr.leading_subset hother)) hboundary hlt
        · have hnullable := LeftRecursion.isNullable_iff.2 (h.nullable_of_mem_ends hstart hmem)
          refine hhere other ?_
          rw [Expr.leading, if_pos hnullable]
          exact List.mem_cons_of_mem _ hother
      obtain ⟨back, hback, hyields'⟩ := ih hboundary hitems hleading hfound.2
      rw [hfront, Chart.seek_seek hle, hback]
      exact ⟨_, rfl, .item hyields hyields'⟩
    · rename_i hnone
      have hnot := List.find?_eq_none.1 hnone first (List.mem_reverse.2 hfirst)
      rw [Bool.and_eq_true, List.contains_iff_mem, hrest hfirst] at hnot
      exact absurd ⟨decide_eq_true hfirstle, hthreads⟩ hnot

/-- Iterations are built one after the other. -/
theorem buildLoop_of_trail (h : grammar.Compiled) {body : Production} {first : Nat}
    (hbody : ∀ {place}, text.IsBoundary place → first ≤ place → grammar.IsBuilt text body place)
    (hstart : text.IsBoundary start) (hle : first ≤ start) {stops : List Nat}
    (htrail : Chart.Trail (fun here => body.ends grammar here) (grammar.chart text) start stops
      stop)
    (built : List (Option ParseTree)) :
    ∃ children, Expr.buildLoop (fun here stop => body.build grammar here stop) built
        ((grammar.chart text).seek start) stops = some (built.reverse ++ children) ∧
      grammar.Laps text body start stop children ∧ children.length = stops.length := by
  induction htrail generalizing built with
  | nil => exact ⟨[], by rw [Expr.buildLoop, List.append_nil], .nil _, rfl⟩
  | @cons start middle stop later hstep _ ih =>
    obtain ⟨items, hitems, hyields⟩ := hbody hstart hle middle hstep.mem
    obtain ⟨hmiddle, hboundary⟩ := h.le_and_isBoundary_of_mem_ends hstart hstep.mem
    obtain ⟨children, hchildren, hlaps, hlength⟩ :=
      ih hboundary (Nat.le_trans hle hmiddle) (some (groupItems items start) :: built)
    refine ⟨_, ?_, .cons hstep.lt hyields hlaps, congrArg Nat.succ hlength⟩
    rw [Expr.buildLoop, hitems, h.offset_seek hstart, Chart.seek_seek hmiddle]
    rw [List.reverse_cons, List.append_assoc] at hchildren
    exact hchildren

/-- The first alternative that can end somewhere is built if all are. -/
theorem buildEither_of_mem {branches : List Production}
    (hbranches : ∀ branch ∈ branches, grammar.IsBuilt text branch start)
    (hstop : ∃ branch ∈ branches, stop ∈ branch.ends grammar ((grammar.chart text).seek start)) :
    ∃ branch ∈ branches, ∃ children,
      Expr.buildEither grammar branches ((grammar.chart text).seek start) stop = some children ∧
        grammar.Yields text (.expr branch) start stop children := by
  induction branches with
  | nil =>
    obtain ⟨branch, hbranch, -⟩ := hstop
    cases hbranch
  | cons branch branches ih =>
    obtain ⟨hfirst, hothers⟩ := List.forall_mem_cons.1 hbranches
    rw [Expr.buildEither]
    split
    · rename_i hmem
      obtain ⟨children, hchildren, hyields⟩ := hfirst stop (List.contains_iff_mem.1 hmem)
      exact ⟨branch, List.mem_cons_self, children, hchildren, hyields⟩
    · rename_i hmem
      rw [List.contains_iff_mem] at hmem
      obtain ⟨other, hother, hends⟩ := hstop
      -- The alternative that is tried first cannot end there, so it is another one.
      have hne : other ≠ branch := by
        rintro rfl
        exact hmem hends
      obtain ⟨found, hfound, children, hchildren, hyields⟩ :=
        ih hothers ⟨other, (List.mem_cons.1 hother).resolve_left hne, hends⟩
      exact ⟨found, List.mem_cons_of_mem _ hfound, children, hchildren, hyields⟩

/-- An expression is built at a place if the rules it calls on the left are, and all expressions are
further ahead. -/
theorem isBuilt_of_leads (h : grammar.Compiled) {expr : Production} (hexpr : grammar.Contains expr)
    (hstart : text.IsBoundary start)
    (hlater : ∀ {part place}, grammar.Contains part → text.IsBoundary place → start < place →
      grammar.IsBuilt text part place)
    (hrules : ∀ index, LeftRecursion.Leads grammar.bodies expr index →
      grammar.IsBuilt text (.call (.rule index)) start) :
    grammar.IsBuilt text expr start := by
  induction expr using Expr.ind with
  | literal word => exact isBuilt_literal word hstart
  | call target =>
    cases target with
    | token index => exact isBuilt_token index hstart
    | rule index => exact hrules index (.rule index)
  | seq items ih =>
    intro stop hstop
    rw [Expr.ends, h.offset_seek hstart, h.mem_endsSeq_iff hstart] at hstop
    -- What the items behind nullable ones call on the left, the sequence does.
    have hleading : ∀ item ∈ Expr.leading (LeftRecursion.isNullableRule grammar.bodies) items,
        grammar.IsBuilt text item start := by
      intro item hitem
      obtain ⟨front, back, rfl, hfront⟩ := Expr.mem_leading.1 hitem
      have hmem : item ∈ front ++ item :: back := by simp
      refine ih item hmem (hexpr.child hmem) fun index hleads => hrules index ?_
      exact .seq (fun ahead hahead => LeftRecursion.isNullable_iff.1 (hfront ahead hahead)) hleads
    obtain ⟨children, hchildren, hyields⟩ := h.buildSeq_of_threads hstart
      (fun item hitem _ hplace hlt => hlater (hexpr.child hitem) hplace hlt) hleading hstop
    exact ⟨children, hchildren, .seq hyields⟩
  | either branches ih =>
    intro stop hstop
    rw [Expr.ends, Chart.mem_endsEither] at hstop
    have hbranches : ∀ branch ∈ branches, grammar.IsBuilt text branch start :=
      fun branch hbranch => ih branch hbranch (hexpr.child hbranch)
        fun index hleads => hrules index (.either hbranch hleads)
    obtain ⟨branch, hbranch, children, hchildren, hyields⟩ := buildEither_of_mem hbranches hstop
    exact ⟨children, hchildren, .either hbranch hyields⟩
  | optional body ih =>
    intro stop hstop
    have hbody := ih (hexpr.child List.mem_cons_self) fun index hleads =>
      hrules index (.optional hleads)
    rw [Expr.ends, Ends.mem_insert, h.offset_seek hstart] at hstop
    rw [Expr.build, h.offset_seek hstart]
    split
    · rename_i hmem
      obtain ⟨children, hchildren, hyields⟩ := hbody stop (List.contains_iff_mem.1 hmem)
      rw [hchildren]
      exact ⟨_, rfl, .present hyields⟩
    · rename_i hmem
      rw [List.contains_iff_mem] at hmem
      -- What the body does not lead to is the place itself, where it is absent.
      obtain rfl := hstop.resolve_right hmem
      rw [if_pos rfl]
      exact ⟨_, rfl, .absent body stop⟩
  | loop label body ih =>
    intro stop hstop
    have hbody := ih (hexpr.child List.mem_cons_self) fun index hleads =>
      hrules index (.loop hleads)
    -- Further iterations begin at the place itself or ahead of it.
    have hplaces {place : Nat} (hplace : text.IsBoundary place) (hle : start ≤ place) :
        grammar.IsBuilt text body place := by
      rcases Nat.lt_or_eq_of_le hle with hlt | rfl
      · exact hlater (hexpr.child List.mem_cons_self) hplace hlt
      · exact hbody
    obtain ⟨stops, hcuts, htrail⟩ := h.exists_cuts hexpr hstart hstop
    obtain ⟨children, hchildren, hlaps, -⟩ :=
      h.buildLoop_of_trail hplaces hstart (Nat.le_refl _) htrail []
    rw [Expr.build, h.offset_seek hstart, hcuts]
    simp only [hchildren]
    exact ⟨_, rfl, .loop hlaps.yields⟩

/-- A rule is built at a place if its body is. -/
theorem isBuilt_rule (h : grammar.Compiled) {index : Nat} {rule : Rule}
    (hrule : grammar.rules[index]? = some rule) (hstart : text.IsBoundary start)
    (hbody : grammar.IsBuilt text rule.body start) :
    grammar.IsBuilt text (.call (.rule index)) start := by
  intro stop hstop
  obtain ⟨front, back, rfl, rfl⟩ := Text.isBoundary_iff.1 hstart
  rw [Expr.ends, seek_chart, h.ruleEnds_eq hrule, ← seek_chart] at hstop
  obtain ⟨children, hchildren, hyields⟩ := hbody stop hstop
  refine ⟨_, ?_, .rule hrule hyields⟩
  rw [seek_chart] at hstop hchildren ⊢
  rw [Expr.build, h.ruleTree_eq hrule, if_pos hstop, hchildren]
  rfl

/-- If everything is built further ahead, all rules are built at a place, from those that they call
on the left up. -/
theorem isBuilt_call (h : grammar.Compiled) (hstart : text.IsBoundary start)
    (hlater : ∀ {part : Production} {place : Nat}, grammar.Contains part →
      text.IsBoundary place → start < place → grammar.IsBuilt text part place)
    {index : Nat} (hindex : index < grammar.rules.size) :
    grammar.IsBuilt text (.call (.rule index)) start := by
  induction h.acc_callsLeft index with
  | intro index _ ih =>
    have hget := Array.getElem?_eq_getElem hindex
    refine h.isBuilt_rule hget hstart (h.isBuilt_of_leads (Contains.body hget) hstart hlater ?_)
    intro callee hleads
    refine ih callee ⟨_, ?_, hleads⟩ (h.lt_of_leads (Contains.body hget) hleads)
    rw [getElem?_bodies, hget]
    rfl

/-- Every end that is found is built into a derivation. -/
theorem isBuilt (h : grammar.Compiled) {expr : Production} (hexpr : grammar.Contains expr)
    (hstart : text.IsBoundary start) : grammar.IsBuilt text expr start := by
  induction hleft : Text.size text - start using Nat.strongRecOn generalizing expr start with
  | ind left ih =>
    have hlater {part : Production} {place : Nat} (hpart : grammar.Contains part)
        (hplace : text.IsBoundary place) (hlt : start < place) :
        grammar.IsBuilt text part place := by
      have hle := hplace.le_size
      exact ih _ (by omega) hpart hplace rfl
    exact h.isBuilt_of_leads hexpr hstart hlater fun index hleads =>
      h.isBuilt_call hstart hlater (h.lt_of_leads hexpr hleads)

/-- On the chart of a text, an expression can end exactly where it has a derivation that ends
there. -/
theorem mem_ends_iff (h : grammar.Compiled) {expr : Production} (hexpr : grammar.Contains expr)
    (hstart : text.IsBoundary start) :
    stop ∈ expr.ends grammar ((grammar.chart text).seek start) ↔
      ∃ items, grammar.Yields text (.expr expr) start stop items := by
  constructor
  · intro hstop
    obtain ⟨items, -, hyields⟩ := h.isBuilt hexpr hstart stop hstop
    exact ⟨items, hyields⟩
  · rintro ⟨items, hyields⟩
    exact h.leads_of_yields hyields hexpr hstart

/-- Where a rule can end there is a tree, and it is a derivation. -/
theorem exists_ruleTree_seek (h : grammar.Compiled) {index : Nat}
    (hindex : index < grammar.rules.size) (hstart : text.IsBoundary start)
    (hstop : stop ∈ ((grammar.chart text).seek start).ruleEnds index) :
    ∃ tree, ((grammar.chart text).seek start).ruleTree index stop = some tree ∧
      grammar.Derives text index start stop tree := by
  have hbuilt := h.isBuilt (.call hindex) hstart stop
  simp only [Expr.ends, Expr.build] at hbuilt
  obtain ⟨items, hitems, hyields⟩ := hbuilt hstop
  obtain ⟨tree, htree, rfl⟩ := Option.map_eq_some_iff.1 hitems
  exact ⟨tree, htree, hyields⟩

/-- On the chart of a text, a rule can end exactly where it derives a tree that ends there. -/
theorem mem_ruleEnds_seek_iff (h : grammar.Compiled) {index : Nat}
    (hindex : index < grammar.rules.size) (hstart : text.IsBoundary start) :
    stop ∈ ((grammar.chart text).seek start).ruleEnds index ↔
      ∃ tree, grammar.Derives text index start stop tree := by
  constructor
  · intro hstop
    obtain ⟨tree, -, hderives⟩ := h.exists_ruleTree_seek hindex hstart hstop
    exact ⟨tree, hderives⟩
  · rintro ⟨tree, hderives⟩
    have hends := (h.mem_ends_iff (.call hindex) hstart).2 ⟨_, hderives⟩
    rwa [Expr.ends] at hends

end Grammar.Compiled

end Retrace
