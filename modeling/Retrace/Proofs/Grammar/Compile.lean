import Retrace.Proofs.Except
import Retrace.Proofs.Grammar.LeftRecursion

/-!
# What compiled grammars are like

Whatever a grammar was compiled from, its repetitions have labels of their own, its expressions call
rules that exist, and no rule is left-recursive. These facts are gathered in `Grammar.Compiled`;
everything about matching rests on them alone.
-/

namespace Retrace

namespace Grammar

/-- The repetitions of all rules with their bodies. -/
def loops (rules : List Rule) : List (Nat × Production) :=
  rules.flatMap fun rule => rule.body.loops

/-- The facts about compiled grammars on which matching rests. -/
structure Compiled (grammar : Grammar) : Prop where
  /-- The entries are planned for the rules of the grammar. -/
  plan_eq : grammar.plan = Plan.ofRules grammar.rules.toList
  /-- There is a top rule. -/
  pos : 0 < grammar.rules.size
  /-- No two repetitions have the same label. -/
  nodup_labels : ((loops grammar.rules.toList).map Prod.fst).Nodup
  /-- Expressions call rules that exist. -/
  call_lt : ∀ {rule : Rule} {index : Nat}, rule ∈ grammar.rules.toList →
    rule.body.Part (.call (.rule index)) → index < grammar.rules.size
  /-- No rule is left-recursive. -/
  not_leftRecursive : ∀ index,
    ¬ LeftRecursion.IsLeftRecursive grammar.bodies index

/-- Labels that are given between two counts. -/
structure Fresh (used used' : Nat) (labels : List Nat) : Prop where
  /-- The count never goes back. -/
  le : used ≤ used'
  /-- No label is given twice. -/
  nodup : labels.Nodup
  /-- The labels lie between the counts. -/
  range : ∀ label ∈ labels, used < label ∧ label ≤ used'

namespace Fresh

theorem nil (used : Nat) : Fresh used used [] :=
  ⟨Nat.le_refl _, List.nodup_nil, fun _ h => (List.not_mem_nil h).elim⟩

/-- Labels that are given one after the other are different. -/
theorem append {used middle used' : Nat} {labels later : List Nat} (h : Fresh used middle labels)
    (h' : Fresh middle used' later) : Fresh used used' (labels ++ later) where
  le := Nat.le_trans h.le h'.le
  nodup := by
    refine List.nodup_append.2 ⟨h.nodup, h'.nodup, fun label hlabel other hother heq => ?_⟩
    have hle := (h.range label hlabel).2
    have hlt := (h'.range other hother).1
    omega
  range label hlabel := by
    have hle := h.le
    have hle' := h'.le
    rcases List.mem_append.1 hlabel with hlabel | hlabel
    · have hrange := h.range label hlabel
      omega
    · have hrange := h'.range label hlabel
      omega

/-- The next label is different from those before. -/
theorem concat {used used' : Nat} {labels : List Nat} (h : Fresh used used' labels) :
    Fresh used (used' + 1) (labels ++ [used' + 1]) := by
  refine h.append ⟨Nat.le_succ _, by simp, fun label hlabel => ?_⟩
  rw [List.mem_singleton.1 hlabel]
  omega

end Fresh

namespace Collected

open Description

variable {collected : Collected} {rule : String}

/-- The number of a rule is that of one that exists. -/
theorem lt_of_target?_eq_some {name : String} {index : Nat}
    (h : collected.target? name = some (.rule index)) : index < collected.rules.length := by
  unfold target? at h
  split at h
  · cases h
  · obtain ⟨found, hfound, heq⟩ := Option.map_eq_some_iff.1 h
    cases heq
    obtain ⟨hlt, -⟩ := List.findIdx?_eq_some_iff_getElem.1 hfound
    exact hlt

/-! ## Resolving, form by form -/

section Forms

-- Every form below starts from these equations, so they are derived once ahead of all of them.
attribute [local simp] resolve resolveAll resolveRules

variable {used : Nat} {resolved : Production × Nat}

theorem resolve_literal_eq_ok {text : Text} :
    collected.resolve rule used (.literal text) = .ok resolved ↔
      (.literal text, used) = resolved := by
  simp

theorem resolve_call_eq_ok {reference : Reference} :
    collected.resolve rule used (.call reference) = .ok resolved ↔
      ∃ target, collected.target? reference.name = some target ∧
        (.call target, used) = resolved := by
  rw [resolve]
  split <;> simp_all

theorem resolve_seq_eq_ok {items : List RawExpr} :
    collected.resolve rule used (.seq items) = .ok resolved ↔
      ∃ exprs used', collected.resolveAll rule used items = .ok (exprs, used') ∧
        (.seq exprs, used') = resolved := by
  rw [resolve]
  split <;> simp_all [and_assoc]

theorem resolve_either_eq_ok {branches : List RawExpr} :
    collected.resolve rule used (.either branches) = .ok resolved ↔
      ∃ exprs used', collected.resolveAll rule used branches = .ok (exprs, used') ∧
        (.either exprs, used') = resolved := by
  rw [resolve]
  split <;> simp_all [and_assoc]

theorem resolve_optional_eq_ok {body : RawExpr} :
    collected.resolve rule used (.optional body) = .ok resolved ↔
      ∃ expr used', collected.resolve rule used body = .ok (expr, used') ∧
        (.optional expr, used') = resolved := by
  rw [resolve]
  split <;> simp_all [and_assoc]

/-- A repetition takes the first label that its body left. -/
theorem resolve_loop_eq_ok {body : RawExpr} :
    collected.resolve rule used (.loop () body) = .ok resolved ↔
      ∃ expr used', collected.resolve rule used body = .ok (expr, used') ∧
        (.loop (used' + 1) expr, used' + 1) = resolved := by
  rw [resolve]
  split <;> simp_all [and_assoc]

theorem resolveAll_nil_eq_ok {resolved : List Production × Nat} :
    collected.resolveAll rule used [] = .ok resolved ↔ ([], used) = resolved := by
  simp

/-- Several expressions are resolved one after the other. -/
theorem resolveAll_cons_eq_ok {first : RawExpr} {later : List RawExpr}
    {resolved : List Production × Nat} :
    collected.resolveAll rule used (first :: later) = .ok resolved ↔
      ∃ expr middle exprs used', collected.resolve rule used first = .ok (expr, middle) ∧
        collected.resolveAll rule middle later = .ok (exprs, used') ∧
        (expr :: exprs, used') = resolved := by
  rw [resolveAll]
  split
  · split <;> simp_all [and_assoc]
  · simp_all

theorem resolveRules_nil_eq_ok {rules : List Rule} :
    collected.resolveRules used [] = .ok rules ↔ [] = rules := by
  simp

/-- Several rules are resolved one after the other. -/
theorem resolveRules_cons_eq_ok {first : RawRule} {later : List RawRule} {rules : List Rule} :
    collected.resolveRules used (first :: later) = .ok rules ↔
      ∃ body middle others, collected.resolve first.name used first.body = .ok (body, middle) ∧
        collected.resolveRules middle later = .ok others ∧ ⟨first.name, body⟩ :: others = rules := by
  rw [resolveRules]
  split
  · split <;> simp_all [and_assoc]
  · simp_all

end Forms

/-! ## What resolving gives -/

/-- What resolving an expression or several gives. -/
structure Resolved (collected : Collected) (used used' : Nat) (exprs : List Production) : Prop where
  /-- The repetitions have new labels. -/
  fresh : Fresh used used' ((exprs.flatMap Expr.loops).map Prod.fst)
  /-- The rules that are called exist. -/
  call_lt : ∀ {expr index}, expr ∈ exprs → expr.Part (.call (.rule index)) →
    index < collected.rules.length

/-- The items of several expressions are resolved one after the other. -/
theorem resolved_of_resolveAll {raw : List RawExpr}
    (hitems : ∀ item ∈ raw, ∀ {used used' expr},
      collected.resolve rule used item = .ok (expr, used') → collected.Resolved used used' [expr])
    {used used' : Nat} {exprs : List Production}
    (h : collected.resolveAll rule used raw = .ok (exprs, used')) :
    collected.Resolved used used' exprs := by
  induction raw generalizing used used' exprs with
  | nil =>
    obtain ⟨⟩ := resolveAll_nil_eq_ok.1 h
    exact ⟨.nil used, fun hmem => (List.not_mem_nil hmem).elim⟩
  | cons first later ih =>
    obtain ⟨expr, middle, others, used'', hfirst, hlater, ⟨⟩⟩ := resolveAll_cons_eq_ok.1 h
    have hexpr := hitems first List.mem_cons_self hfirst
    have hothers := ih (fun item hitem => hitems item (List.mem_cons_of_mem _ hitem)) hlater
    refine ⟨?_, fun hmem hpart => ?_⟩
    · -- The later items take their labels where the first one left off.
      have happend := hexpr.fresh.append hothers.fresh
      simpa using happend
    · rcases List.mem_cons.1 hmem with rfl | hmem
      · exact hexpr.call_lt (List.mem_singleton.2 rfl) hpart
      · exact hothers.call_lt hmem hpart

/-- An expression that consists of resolved ones is resolved, if it adds no repetition. -/
theorem Resolved.of_children {used used' : Nat} {expr : Production}
    (h : collected.Resolved used used' expr.children)
    (hloops : expr.loops = expr.children.flatMap Expr.loops)
    (hcall : ∀ index, expr ≠ .call (.rule index)) : collected.Resolved used used' [expr] where
  fresh := by
    rw [List.flatMap_singleton, hloops]
    exact h.fresh
  call_lt {expr' index} hmem hpart := by
    obtain rfl := List.mem_singleton.1 hmem
    rcases hpart.eq_or_exists_child with heq | ⟨child, hchild, hpart⟩
    · exact absurd heq.symm (hcall index)
    · exact h.call_lt hchild hpart

/-- Resolving an expression gives its repetitions new labels and calls rules that exist. -/
theorem resolved_of_resolve {raw : RawExpr} {used used' : Nat} {expr : Production}
    (h : collected.resolve rule used raw = .ok (expr, used')) :
    collected.Resolved used used' [expr] := by
  induction raw using Expr.ind generalizing used used' expr with
  | literal text =>
    obtain ⟨⟩ := resolve_literal_eq_ok.1 h
    exact .of_children ⟨.nil used, fun hmem => (List.not_mem_nil hmem).elim⟩ rfl
      fun _ heq => by cases heq
  | call reference =>
    obtain ⟨target, htarget, ⟨⟩⟩ := resolve_call_eq_ok.1 h
    -- A call has no parts but itself, and its target was looked up among the rules.
    refine ⟨.nil used, fun hmem hpart => ?_⟩
    rw [List.mem_singleton.1 hmem] at hpart
    rcases hpart.eq_or_exists_child with heq | ⟨child, hchild, -⟩
    · cases heq
      exact lt_of_target?_eq_some htarget
    · cases hchild
  | seq items ih =>
    obtain ⟨exprs, used'', hitems, ⟨⟩⟩ := resolve_seq_eq_ok.1 h
    exact .of_children (resolved_of_resolveAll ih hitems)
      (by rw [Expr.loops, Expr.loopsAll_eq]; rfl) fun _ heq => by cases heq
  | either branches ih =>
    obtain ⟨exprs, used'', hbranches, ⟨⟩⟩ := resolve_either_eq_ok.1 h
    exact .of_children (resolved_of_resolveAll ih hbranches)
      (by rw [Expr.loops, Expr.loopsAll_eq]; rfl) fun _ heq => by cases heq
  | optional body ih =>
    obtain ⟨expr, used'', hbody, ⟨⟩⟩ := resolve_optional_eq_ok.1 h
    exact .of_children (ih hbody) (by rw [Expr.loops]; simp [Expr.children])
      fun _ heq => by cases heq
  | loop label body ih =>
    obtain ⟨expr, used'', hbody, ⟨⟩⟩ := resolve_loop_eq_ok.1 h
    have hresolved := ih hbody
    refine ⟨?_, fun hmem hpart => ?_⟩
    · have hfresh := hresolved.fresh.concat
      simpa [Expr.loops] using hfresh
    · rw [List.mem_singleton.1 hmem] at hpart
      rcases hpart.eq_or_exists_child with heq | ⟨child, hchild, hpart⟩
      · cases heq
      · exact hresolved.call_lt hchild hpart

/-- Resolving all rules gives their repetitions different labels and calls rules that exist. -/
theorem resolved_of_resolveRules {written : List RawRule} {used : Nat} {rules : List Rule}
    (h : collected.resolveRules used written = .ok rules) :
    rules.length = written.length ∧
      ∃ used', collected.Resolved used used' (rules.map Rule.body) := by
  induction written generalizing used rules with
  | nil =>
    obtain rfl := resolveRules_nil_eq_ok.1 h
    exact ⟨rfl, used, .nil used, fun hmem => (List.not_mem_nil hmem).elim⟩
  | cons first later ih =>
    obtain ⟨body, middle, others, hbody, hothers, rfl⟩ := resolveRules_cons_eq_ok.1 h
    obtain ⟨hlength, used', hlater⟩ := ih hothers
    have hfirst := resolved_of_resolve hbody
    refine ⟨by rw [List.length_cons, hlength, List.length_cons], used', ?_, fun hmem hpart => ?_⟩
    · have happend := hfirst.fresh.append hlater.fresh
      simpa using happend
    · rcases List.mem_cons.1 hmem with rfl | hmem
      · exact hfirst.call_lt (List.mem_singleton.2 rfl) hpart
      · exact hlater.call_lt hmem hpart

end Collected

/-- What is known when definitions could be compiled. -/
theorem compiled_of_ofDefinitions {definitions : List Description.Definition} {grammar : Grammar}
    (h : ofDefinitions definitions = .ok grammar) : grammar.Compiled := by
  obtain ⟨collected, -, h⟩ := Except.bind_eq_ok.1 h
  dsimp only at h
  split at h
  · cases h
  · rename_i hrules
    obtain ⟨-, -, h⟩ := Except.bind_eq_ok.1 h
    obtain ⟨rules, hresolve, h⟩ := Except.bind_eq_ok.1 h
    obtain ⟨⟨⟩, hcheck, h⟩ := Except.bind_eq_ok.1 h
    obtain rfl := Except.ok.inj h
    obtain ⟨hlength, used, hresolved⟩ := Collected.resolved_of_resolveRules hresolve
    have hpos : 0 < collected.rules.length := by
      rw [List.isEmpty_iff] at hrules
      exact List.length_pos_iff.2 hrules
    -- The plan was made from these very rules; the checks on the way give the rest.
    refine ⟨rfl, ?_, ?_, fun {rule index} hrule hpart => ?_, ?_⟩
    · rw [List.size_toArray, hlength]
      exact hpos
    · have hnodup := hresolved.fresh.nodup
      rw [List.flatMap_map] at hnodup
      exact hnodup
    · rw [List.size_toArray, hlength]
      exact hresolved.call_lt (List.mem_map.2 ⟨rule, hrule, rfl⟩) hpart
    · exact (checkLeftRecursion_eq_ok_iff hlength.symm).1 hcheck

/-- The grammar with definitions that can be compiled is one that was compiled. -/
theorem compiled_getD {definitions : List Description.Definition} {other : Grammar}
    (h : (ofDefinitions definitions).toOption.isSome = true) :
    ((ofDefinitions definitions).toOption.getD other).Compiled := by
  obtain ⟨grammar, hgrammar⟩ := Option.isSome_iff_exists.1 h
  rw [hgrammar, Option.getD_some]
  exact compiled_of_ofDefinitions (Except.toOption_eq_some.1 hgrammar)

/-- What is known of every grammar that was compiled. -/
theorem compiled_of_compile {description : Text} {grammar : Grammar}
    (h : compile description = .ok grammar) : grammar.Compiled := by
  obtain ⟨definitions, -, h⟩ := Except.bind_eq_ok.1 h
  exact compiled_of_ofDefinitions h

end Grammar

end Retrace
