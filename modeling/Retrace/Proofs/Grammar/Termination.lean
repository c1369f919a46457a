import Retrace.Proofs.Grammar.Matching

/-!
# Evaluation comes to an end

Evaluating an expression at a place asks where rules end at this place or further ahead, and so
does building it (`Grammar.Asks`). At the same place only rules are asked for that are called on the
left, so without left recursion no rule ever waits for itself at the place where it is being
evaluated (`Grammar.Compiled.wellFounded_awaits`), and what is looked up is always finished.

## Main definitions

* `Grammar.Asks`: evaluating an expression at a place asks for a rule at a place;
* `Grammar.Awaits`: a rule at a place waits for a rule at a place.

## Main results

* `Grammar.leftRecursion_and_awaits`: the check refuses exactly left-recursive rules, and what it
  lets pass is evaluated without going round in circles.
-/

namespace Retrace.Grammar

open LeftRecursion

/-- Evaluating an expression at an offset asks for a rule at another one, where it stands first or
behind what was found before. -/
inductive Asks (grammar : Grammar) (text : Text) :
    Production → (start index place : Nat) → Prop
  | call (index start : Nat) : Asks grammar text (.call (.rule index)) start index start
  | seq {front back : List Production} {item : Production} {start middle index place : Nat} :
      (grammar.chart text).Threads grammar front start middle →
      Asks grammar text item middle index place →
      Asks grammar text (.seq (front ++ item :: back)) start index place
  | either {branches : List Production} {branch : Production} {start index place : Nat} :
      branch ∈ branches → Asks grammar text branch start index place →
      Asks grammar text (.either branches) start index place
  | optional {body : Production} {start index place : Nat} :
      Asks grammar text body start index place →
      Asks grammar text (.optional body) start index place
  | loop {label : Nat} {body : Production} {start middle index place : Nat} :
      middle ∈ (Expr.loop label body).ends grammar ((grammar.chart text).seek start) →
      Asks grammar text body middle index place →
      Asks grammar text (.loop label body) start index place

/-- To evaluate a rule at a place, the result of a rule at a place is asked for. Rules stand here
with their places. -/
def Awaits (grammar : Grammar) (text : Text) (asked asking : Nat × Nat) : Prop :=
  ∃ rule, grammar.rules[asking.1]? = some rule ∧ text.IsBoundary asking.2 ∧
    grammar.Asks text rule.body asking.2 asked.1 asked.2

namespace Compiled

variable {grammar : Grammar} {text : Text}

/-- Items that lead nowhere are nullable. -/
theorem isBoundary_and_nullable_of_threads (h : grammar.Compiled) {items : List Production}
    {start stop : Nat} (hstart : text.IsBoundary start)
    (hthreads : (grammar.chart text).Threads grammar items start stop) :
    text.IsBoundary stop ∧ (stop = start → ∀ item ∈ items, Nullable grammar.bodies item) := by
  induction items generalizing start with
  | nil =>
    obtain rfl : start = stop := hthreads
    exact ⟨hstart, fun _ _ hitem => (List.not_mem_nil hitem).elim⟩
  | cons first items ih =>
    obtain ⟨middle, hmiddle, hthreads⟩ := hthreads
    obtain ⟨hle, hboundary⟩ := h.le_and_isBoundary_of_mem_ends hstart hmiddle
    obtain ⟨hstop, hitems⟩ := ih hboundary hthreads
    refine ⟨hstop, ?_⟩
    rintro rfl
    have hle' := h.le_of_threads hboundary hthreads
    obtain rfl := Nat.le_antisymm hle' hle
    exact List.forall_mem_cons.2 ⟨h.nullable_of_mem_ends hstart hmiddle, hitems rfl⟩

/-- Rules are asked for further ahead, or they are called on the left. -/
theorem leads_of_asks (h : grammar.Compiled) {expr : Production} {start index place : Nat}
    (hasks : grammar.Asks text expr start index place) (hstart : text.IsBoundary start) :
    start ≤ place ∧ text.IsBoundary place ∧ (place = start → Leads grammar.bodies expr index) := by
  induction hasks with
  | call index start => exact ⟨Nat.le_refl _, hstart, fun _ => .rule index⟩
  | seq hthreads _ ih =>
    -- The items ahead are nullable if the rule is asked for where the first of them starts.
    have hle := h.le_of_threads hstart hthreads
    obtain ⟨hmiddle, hnullable⟩ := h.isBoundary_and_nullable_of_threads hstart hthreads
    obtain ⟨hle', hplace, hleads⟩ := ih hmiddle
    refine ⟨Nat.le_trans hle hle', hplace, fun heq => ?_⟩
    exact .seq (hnullable (by omega)) (hleads (by omega))
  | either hbranch _ ih =>
    obtain ⟨hle, hplace, hleads⟩ := ih hstart
    exact ⟨hle, hplace, fun heq => .either hbranch (hleads heq)⟩
  | optional _ ih =>
    obtain ⟨hle, hplace, hleads⟩ := ih hstart
    exact ⟨hle, hplace, fun heq => .optional (hleads heq)⟩
  | loop hmiddle _ ih =>
    obtain ⟨hle, hboundary⟩ := h.le_and_isBoundary_of_mem_ends hstart hmiddle
    obtain ⟨hle', hplace, hleads⟩ := ih hboundary
    exact ⟨Nat.le_trans hle hle', hplace, fun heq => .loop (hleads (by omega))⟩

/-- No rule waits for itself: chains of waiting go ahead in the text or along calls on the left. -/
theorem wellFounded_awaits (h : grammar.Compiled) (text : Text) :
    WellFounded (grammar.Awaits text) := by
  refine ⟨fun ⟨index, place⟩ => ?_⟩
  -- Lexicographic: on what is left of the text, then along calls on the left.
  induction hleft : Text.size text - place using Nat.strongRecOn generalizing index place with
  | ind left ih =>
    induction h.acc_callsLeft index with
    | intro index _ ihcalls =>
      refine ⟨_, fun ⟨index', place'⟩ ⟨rule, hrule, hplace, hasks⟩ => ?_⟩
      obtain ⟨hle, hplace', hleads⟩ := h.leads_of_asks hasks hplace
      have hsize := hplace'.le_size
      rcases Nat.lt_or_eq_of_le hle with hlt | rfl
      · exact ih _ (by omega) index' place' rfl
      · refine ihcalls index' ⟨rule.body, ?_, hleads rfl⟩
        rw [getElem?_bodies, hrule]
        rfl

/-- A relation without endless chains has no circles. -/
theorem not_transGen_self {α : Type} {relation : α → α → Prop} (h : WellFounded relation) (a : α) :
    ¬ Relation.TransGen relation a a := by
  intro hcircle
  induction h.transGen.apply a with
  | intro a _ ih => exact ih a hcircle hcircle

/-- What the chart says about a rule is what the body of the rule gives on the finished chart. -/
theorem ruleEnds_and_ruleTree_eq (h : grammar.Compiled) {index start : Nat} {rule : Rule}
    (hrule : grammar.rules[index]? = some rule) (hstart : text.IsBoundary start) :
    let chart := (grammar.chart text).seek start
    chart.ruleEnds index = rule.body.ends grammar chart ∧
      ∀ stop, chart.ruleTree index stop =
        if stop ∈ rule.body.ends grammar chart then
          (rule.body.build grammar chart stop).map fun children =>
            .node (some rule.name) children (coverSpan children start)
        else none := by
  obtain ⟨front, back, rfl, rfl⟩ := Text.isBoundary_iff.1 hstart
  dsimp only
  rw [seek_chart]
  exact ⟨h.ruleEnds_eq hrule, h.ruleTree_eq hrule⟩

end Compiled

/-- Rules are refused exactly if one is left-recursive, and the first such rule is named. Of a
grammar that is compiled, no rule at a place waits for itself at that place, whatever the text, and
there is no endless chain of waiting; what is looked up for a rule is what its body gives, for
recognition and for tree building. -/
theorem leftRecursion_and_awaits :
    (∀ (written : List RawRule) (rules : List Rule), written.length = rules.length →
      ((∃ error, checkLeftRecursion written rules = .error error) ↔
        ∃ index, IsLeftRecursive (rules.map Rule.body) index) ∧
      ∀ error, checkLeftRecursion written rules = .error error ↔
        ∃ index rule, written[index]? = some rule ∧ error = .leftRecursive rule.name rule.span ∧
          IsLeftRecursive (rules.map Rule.body) index ∧
          ∀ earlier < index, ¬ IsLeftRecursive (rules.map Rule.body) earlier) ∧
    ∀ (description : Text) (grammar : Grammar), compile description = .ok grammar →
      ∀ text, WellFounded (grammar.Awaits text) ∧
        (∀ place, ¬ Relation.TransGen (grammar.Awaits text) place place) ∧
        ∀ (index start : Nat) (rule : Rule), grammar.rules[index]? = some rule →
          text.IsBoundary start →
          let chart := (grammar.chart text).seek start
          chart.ruleEnds index = rule.body.ends grammar chart ∧
            ∀ stop, chart.ruleTree index stop =
              if stop ∈ rule.body.ends grammar chart then
                (rule.body.build grammar chart stop).map fun children =>
                  .node (some rule.name) children (coverSpan children start)
              else none := by
  constructor
  · intro written rules hlength
    refine ⟨?_, fun error => checkLeftRecursion_eq_error_iff⟩
    -- The check has only two results, so it fails exactly if it does not succeed.
    have hok := checkLeftRecursion_eq_ok_iff hlength
    cases hcheck : checkLeftRecursion written rules with
    | ok =>
      rw [hcheck] at hok
      simpa using hok.1 rfl
    | error error =>
      rw [hcheck] at hok
      simpa using hok
  · intro description grammar hcompile text
    have h := compiled_of_compile hcompile
    have hwf := h.wellFounded_awaits text
    exact ⟨hwf, Compiled.not_transGen_self hwf,
      fun index start rule hrule hstart => h.ruleEnds_and_ruleTree_eq hrule hstart⟩

/-- Two rules that call each other first. -/
def mutualRules : List (RawRule × Rule) :=
  [(⟨"a", .literal [], .point 0⟩, ⟨"a", .seq [.optional (.literal ['x']), .call (.rule 1)]⟩),
    (⟨"b", .literal [], .point 1⟩, ⟨"b", .call (.rule 0)⟩)]

/-- Of two rules that call each other behind what may be absent, the first is refused; nested
brackets are evaluated without a circle. -/
theorem leftRecursion_and_awaits_mutualRules :
    (mutualRules.map Prod.fst).length = (mutualRules.map Prod.snd).length ∧
      (∃ index, IsLeftRecursive ((mutualRules.map Prod.snd).map Rule.body) index) ∧
      ∃ grammar, compile nestedBrackets = .ok grammar ∧
        WellFounded (grammar.Awaits ['<', '>']) := by
  obtain ⟨hcheck, hcompiled⟩ := leftRecursion_and_awaits
  have hrefused : checkLeftRecursion (mutualRules.map Prod.fst) (mutualRules.map Prod.snd) =
      .error (.leftRecursive "a" (.point 0)) := by
    decide +kernel
  obtain ⟨grammar, hgrammar⟩ : ∃ grammar, compile nestedBrackets = .ok grammar := by
    have hsome : (compile nestedBrackets).toOption.isSome = true := by
      decide +kernel
    obtain ⟨grammar, hgrammar⟩ := Option.isSome_iff_exists.1 hsome
    exact ⟨grammar, Except.toOption_eq_some.1 hgrammar⟩
  obtain ⟨hwf, -⟩ := hcompiled nestedBrackets grammar hgrammar ['<', '>']
  have hlength : (mutualRules.map Prod.fst).length = (mutualRules.map Prod.snd).length := by
    decide
  exact ⟨hlength, (hcheck _ _ hlength).1.1 ⟨_, hrefused⟩, grammar, hgrammar, hwf⟩

end Retrace.Grammar
