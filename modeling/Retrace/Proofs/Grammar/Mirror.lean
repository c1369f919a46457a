import Retrace.Proofs.Grammar.Compilable
import Retrace.Proofs.Grammar.Threads
import Mathlib.Data.List.Forall2

/-!
# A compiled grammar is what has been written

Compiling replaces names by numbers and labels repetitions, and changes nothing else: a compiled
rule has the form of the alternatives written for it, constructor by constructor, and a number in it
is that of the token or rule whose name is written there (`Grammar.Mirrors`,
`Grammar.Represents`).

The labels come from one counter that runs through all rules. Nothing but the label tells at a place
of a text which repetition an end is remembered for, so labels that are given twice would mix up two
repetitions; there are none, and what is remembered is always that of the repetition that asks
(`Grammar.KeepsApart`).

## Main definitions

* `Grammar.nameOf?`: the name of what a reference leads to;
* `Grammar.Mirrors`: a compiled expression has the form of a written one;
* `Grammar.Represents`: a grammar consists of what some definitions define;
* `Grammar.KeepsApart`: different expressions are remembered apart.
-/

namespace Retrace

namespace Grammar

open Description

/-- The name of the token or rule that a reference leads to, if there is one with this number. -/
def nameOf? (grammar : Grammar) : Target → Option String
  | .token index => grammar.tokens[index]?.map Token.name
  | .rule index => grammar.rules[index]?.map Rule.name

/-- A compiled expression has the form of one that is written, constructor by constructor, and its
references lead to tokens and rules with the names that are written. -/
inductive Mirrors (grammar : Grammar) : RawExpr → Production → Prop
  | literal (text : Text) : Mirrors grammar (.literal text) (.literal text)
  | call {reference : Reference} {target : Target} :
      grammar.nameOf? target = some reference.name →
      Mirrors grammar (.call reference) (.call target)
  | seq {items : List RawExpr} {exprs : List Production} :
      List.Forall₂ (Mirrors grammar) items exprs → Mirrors grammar (.seq items) (.seq exprs)
  | either {branches : List RawExpr} {exprs : List Production} :
      List.Forall₂ (Mirrors grammar) branches exprs →
      Mirrors grammar (.either branches) (.either exprs)
  | optional {body : RawExpr} {expr : Production} : Mirrors grammar body expr →
      Mirrors grammar (.optional body) (.optional expr)
  | loop {body : RawExpr} {expr : Production} (label : Nat) : Mirrors grammar body expr →
      Mirrors grammar (.loop () body) (.loop label expr)

/-- A grammar consists of what some definitions define, in the same order, behind the tokens that
need no definition. -/
structure Represents (grammar : Grammar) (definitions : List Definition) : Prop where
  /-- The tokens have the names and the patterns that are written. -/
  tokens_eq : grammar.tokens.toList.map (fun token => (token.name, some token.shape)) =
    builtinTokens.map (fun token => (token.name, some token.shape)) ++ writtenTokens definitions
  /-- The rules have the names and mirror the alternatives that are written. -/
  rules : List.Forall₂ (fun written rule => rule.name = written.1 ∧
    grammar.Mirrors written.2 rule.body) (writtenRules definitions) grammar.rules.toList
  /-- No name is that of two tokens, of two rules, or of a token and a rule. -/
  nodup_names :
    (grammar.tokens.toList.map Token.name ++ grammar.rules.toList.map Rule.name).Nodup
  /-- The tokens that expressions refer to exist. -/
  token_lt : ∀ rule ∈ grammar.rules.toList, ∀ index,
    rule.body.Part (.call (.token index)) → index < grammar.tokens.size
  /-- The rules that expressions refer to exist. -/
  rule_lt : ∀ rule ∈ grammar.rules.toList, ∀ index,
    rule.body.Part (.call (.rule index)) → index < grammar.rules.size

/-- What is remembered at the places of a text is kept apart by the labels of repetitions and the
numbers of rules. -/
structure KeepsApart (grammar : Grammar) : Prop where
  /-- No two repetitions in the rules have the same label. -/
  nodup_labels : ((loops grammar.rules.toList).map Prod.fst).Nodup
  /-- A label is that of a single expression. -/
  body_eq : ∀ {label : Nat} {body body' : Production}, grammar.Contains (.loop label body) →
    grammar.Contains (.loop label body') → body = body'
  /-- No two entries that are remembered have the same key. -/
  nodup_keys : (grammar.plan.map Entry.key).Nodup
  /-- What is remembered for a label is what the body of the repetition with this label gives. -/
  loopEnds_eq : ∀ {text : Text} {start label : Nat} {body : Production}, text.IsBoundary start →
    grammar.Contains (.loop label body) →
    ((grammar.chart text).seek start).loopEnds label =
      Chart.iterate (fun here => body.ends grammar here) ((grammar.chart text).seek start)
  /-- What is remembered for a number is what the body of the rule with this number gives. -/
  ruleEnds_eq : ∀ {text : Text} {start index : Nat} {rule : Rule}, text.IsBoundary start →
    grammar.rules[index]? = some rule →
    ((grammar.chart text).seek start).ruleEnds index =
      rule.body.ends grammar ((grammar.chart text).seek start)

variable {grammar : Grammar} {definitions : List Definition}

@[simp]
theorem isSome_nameOf?_token {index : Nat} :
    (grammar.nameOf? (.token index)).isSome ↔ index < grammar.tokens.size := by
  simp [nameOf?]

@[simp]
theorem isSome_nameOf?_rule {index : Nat} :
    (grammar.nameOf? (.rule index)).isSome ↔ index < grammar.rules.size := by
  simp [nameOf?]

/-! ## Parts of expressions that mirror each other -/

/-- What stands in the second of two lists that correspond does so to something in the first. -/
theorem exists_of_mem_of_forall₂ {α β : Type} {relation : α → β → Prop} {items : List α}
    {others : List β} (h : List.Forall₂ relation items others) {other : β} (hmem : other ∈ others) :
    ∃ item ∈ items, relation item other := by
  induction h with
  | nil => cases hmem
  | cons hfirst _ ih =>
    rcases List.mem_cons.1 hmem with rfl | hmem
    · exact ⟨_, List.mem_cons_self, hfirst⟩
    · obtain ⟨item, hitem, hrelation⟩ := ih hmem
      exact ⟨item, List.mem_cons_of_mem _ hitem, hrelation⟩

namespace Mirrors

variable {raw : RawExpr} {expr : Production}

/-- What a compiled expression consists of mirrors what the written one consists of. -/
theorem exists_child (h : grammar.Mirrors raw expr) {child : Production}
    (hchild : child ∈ expr.children) : ∃ written ∈ raw.children, grammar.Mirrors written child := by
  cases h with
  | literal => cases hchild
  | call => cases hchild
  | seq hitems => exact exists_of_mem_of_forall₂ hitems hchild
  | either hbranches => exact exists_of_mem_of_forall₂ hbranches hchild
  | optional hbody =>
    obtain rfl := List.mem_singleton.1 hchild
    exact ⟨_, List.mem_cons_self, hbody⟩
  | loop _ hbody =>
    obtain rfl := List.mem_singleton.1 hchild
    exact ⟨_, List.mem_cons_self, hbody⟩

/-- Every part of a compiled expression mirrors a part of the written one. -/
theorem exists_part (h : grammar.Mirrors raw expr) {part : Production} (hpart : expr.Part part) :
    ∃ written, raw.Part written ∧ grammar.Mirrors written part := by
  induction hpart with
  | self => exact ⟨raw, .self, h⟩
  | child _ hchild ih =>
    obtain ⟨parent, hparent, hmirrors⟩ := ih
    obtain ⟨written, hwritten, hmirrors⟩ := hmirrors.exists_child hchild
    exact ⟨written, hparent.child hwritten, hmirrors⟩

/-- A reference in a compiled expression leads to something that has a name. -/
theorem isSome_nameOf? (h : grammar.Mirrors raw expr) {target : Target}
    (hpart : expr.Part (.call target)) : (grammar.nameOf? target).isSome := by
  obtain ⟨written, -, hmirrors⟩ := h.exists_part hpart
  cases hmirrors with
  | call hname => rw [hname, Option.isSome_some]

end Mirrors

/-! ## From what has been resolved to what has been compiled -/

namespace Collected

variable {collected : Collected}

/-- A name stands for a token only if the token with this number has the name. -/
theorem getElem?_of_target?_eq_token {name : String} {index : Nat}
    (h : collected.target? name = some (.token index)) :
    collected.tokenNames[index]? = some name := by
  unfold target? at h
  split at h
  · rename_i found hfound
    cases h
    obtain ⟨hlt, hname, -⟩ := List.findIdx?_eq_some_iff_getElem.1 hfound
    rw [tokenNames, List.getElem?_map, List.getElem?_eq_getElem hlt, Option.map_some,
      of_decide_eq_true hname]
  · -- What has not been found among the tokens does not stand for one.
    obtain ⟨_, -, heq⟩ := Option.map_eq_some_iff.1 h
    cases heq

/-- What an expression resolves to mirrors it, if numbers lead back to the names. -/
theorem Resolves.mirrors
    (hname : ∀ {name target}, collected.target? name = some target →
      grammar.nameOf? target = some name)
    {raw : RawExpr} {expr : Production} (h : collected.Resolves raw.plain expr) :
    grammar.Mirrors raw expr := by
  -- Lists that become the same have the same length, and their members become the same.
  have hlist {items : List RawExpr} {exprs : List Production}
      (ih : ∀ item ∈ items, ∀ expr, collected.Resolves item.plain expr → grammar.Mirrors item expr)
      (heq : exprs.map (Expr.map some fun _ => ()) =
        (items.map (Expr.map Reference.name id)).map (Expr.map collected.target? id)) :
      List.Forall₂ (Mirrors grammar) items exprs := by
    rw [List.map_map, ← List.forall₂_eq_eq_eq, List.forall₂_map_left_iff,
      List.forall₂_map_right_iff] at heq
    exact ((List.forall₂_and_left items exprs).2 ⟨ih, heq.flip⟩).imp fun item expr hitem =>
      hitem.1 expr hitem.2
  induction raw using Expr.ind generalizing expr with
  | literal text =>
    rw [Resolves, Expr.plain, Expr.map_literal, Expr.map_literal] at h
    obtain rfl := Expr.map_eq_literal_iff.1 h
    exact .literal text
  | call reference =>
    rw [Resolves, Expr.plain, Expr.map_call, Expr.map_call] at h
    obtain ⟨target, rfl, htarget⟩ := Expr.map_eq_call_iff.1 h
    exact .call (hname htarget.symm)
  | seq items ih =>
    rw [Resolves, Expr.plain, Expr.map_seq, Expr.map_seq] at h
    obtain ⟨exprs, rfl, hexprs⟩ := Expr.map_eq_seq_iff.1 h
    exact .seq (hlist (fun item hitem _ => ih item hitem) hexprs)
  | either branches ih =>
    rw [Resolves, Expr.plain, Expr.map_either, Expr.map_either] at h
    obtain ⟨exprs, rfl, hexprs⟩ := Expr.map_eq_either_iff.1 h
    exact .either (hlist (fun branch hbranch _ => ih branch hbranch) hexprs)
  | optional body ih =>
    rw [Resolves, Expr.plain, Expr.map_optional, Expr.map_optional] at h
    obtain ⟨expr, rfl, hbody⟩ := Expr.map_eq_optional_iff.1 h
    exact .optional (ih hbody)
  | loop label body ih =>
    rw [Resolves, Expr.plain, Expr.map_loop, Expr.map_loop] at h
    obtain ⟨label, expr, rfl, -, hbody⟩ := Expr.map_eq_loop_iff.1 h
    exact .loop label (ih hbody)

/-- Rules are resolved one by one, and keep their names. -/
theorem forall₂_of_resolveRules {written : List RawRule} {used : Nat} {rules : List Rule}
    (h : collected.resolveRules used written = .ok rules) :
    List.Forall₂ (fun raw rule => rule.name = raw.name ∧
      collected.Resolves raw.body.plain rule.body) written rules := by
  induction written generalizing used rules with
  | nil =>
    obtain rfl := resolveRules_nil_eq_ok.1 h
    exact .nil
  | cons first others ih =>
    obtain ⟨body, middle, resolved, hbody, hothers, rfl⟩ := resolveRules_cons_eq_ok.1 h
    exact .cons ⟨rfl, resolves_of_resolve hbody⟩ (ih hothers)

end Collected

/-- A grammar that has been compiled consists of what the definitions define. -/
theorem represents_of_ofDefinitions (h : ofDefinitions definitions = .ok grammar) :
    grammar.Represents definitions := by
  obtain ⟨collected, hcollected, -, hnot, rules, hresolve, -, heq⟩ := ofDefinitions_eq_ok_iff.1 h
  have htokens : grammar.tokens.toList = collected.tokens := by rw [← heq]
  have hrules : grammar.rules.toList = rules := by rw [← heq]
  have hcollects := Collected.collects_of_foldlM_add hcollected
  have hdistinct : Distinct collected.tokenNames collected.ruleNames :=
    ⟨hcollects.nodup_tokens (by decide), hcollects.nodup_rules (by decide), hnot⟩
  have hresolves := Collected.forall₂_of_resolveRules hresolve
  have hnames : rules.map Rule.name = collected.ruleNames := by
    rw [Collected.ruleNames, Collected.plainRules, List.map_map, ← List.forall₂_eq_eq_eq,
      List.forall₂_map_left_iff, List.forall₂_map_right_iff]
    exact (hresolves.imp fun _ _ hrule => hrule.1).flip
  -- A number was given by looking up a name, and looking up the number gives the name again.
  have hname {name : String} {target : Target} (htarget : collected.target? name = some target) :
      grammar.nameOf? target = some name := by
    cases target with
    | token index =>
      rw [nameOf?, ← Array.getElem?_toList, htokens, ← List.getElem?_map]
      exact Collected.getElem?_of_target?_eq_token htarget
    | rule index =>
      rw [nameOf?, ← Array.getElem?_toList, hrules, ← List.getElem?_map, hnames]
      exact (Collected.target?_eq_rule_iff hdistinct).1 htarget
  have hwritten : collected.rules.map (fun rule => (rule.name, rule.body)) =
      writtenRules definitions := hcollects.rules_eq
  have hmirrors : List.Forall₂ (fun written rule => rule.name = written.1 ∧
      grammar.Mirrors written.2 rule.body) (writtenRules definitions) grammar.rules.toList := by
    rw [← hwritten, hrules, List.forall₂_map_left_iff]
    exact hresolves.imp fun raw rule hrule => ⟨hrule.1, hrule.2.mirrors hname⟩
  -- Whatever is referred to in a rule has a name, so it is there.
  have hcall : ∀ rule ∈ grammar.rules.toList, ∀ target, rule.body.Part (.call target) →
      (grammar.nameOf? target).isSome := by
    intro rule hrule target hpart
    obtain ⟨written, -, -, hbody⟩ := exists_of_mem_of_forall₂ hmirrors hrule
    exact hbody.isSome_nameOf? hpart
  refine ⟨?_, hmirrors, ?_, fun rule hrule index hpart => ?_, fun rule hrule index hpart => ?_⟩
  · rw [htokens]
    exact hcollects.tokens_eq
  · rw [htokens, hrules, hnames]
    refine List.nodup_append.2 ⟨hdistinct.nodup_tokens, hdistinct.nodup_rules, ?_⟩
    rintro name htoken other hother rfl
    exact hdistinct.not_mem_tokens name hother htoken
  · exact isSome_nameOf?_token.1 (hcall rule hrule _ hpart)
  · exact isSome_nameOf?_rule.1 (hcall rule hrule _ hpart)

/-- What is remembered in a grammar that has been compiled is kept apart. -/
theorem Compiled.keepsApart (h : grammar.Compiled) : grammar.KeepsApart where
  nodup_labels := h.nodup_labels
  body_eq {label body body'} hbody hbody' := by
    -- Both are entries with this label, and the plan holds a single one.
    have hentry : Entry.loop label body' ∈ Plan.entries grammar.rules.toList :=
      Plan.mem_entries.2 (Or.inr ⟨label, body', hbody'.mem_loops, rfl⟩)
    cases h.eq_of_key_eq_loop hentry rfl hbody.mem_loops
    rfl
  nodup_keys := h.nodup_keys_plan
  loopEnds_eq {text start label body} hstart hbody := by
    obtain ⟨front, back, rfl, rfl⟩ := Text.isBoundary_iff.1 hstart
    exact h.loopEnds_seek hbody front back
  ruleEnds_eq {text start index rule} hstart hrule := by
    obtain ⟨front, back, rfl, rfl⟩ := Text.isBoundary_iff.1 hstart
    rw [seek_chart]
    exact h.ruleEnds_eq hrule

/-- A grammar that is compiled from a description mirrors the rules in it: every reference leads to
the definition with the name that is written, and no two expressions are remembered alike. -/
theorem represents_of_compile {description : Text} (h : compile description = .ok grammar) :
    ∃ definitions, Description.read description = .ok definitions ∧
      grammar.Represents definitions ∧ grammar.KeepsApart := by
  obtain ⟨definitions, hread, hdefinitions⟩ := Except.bind_eq_ok.1 h
  exact ⟨definitions, hread, represents_of_ofDefinitions hdefinitions,
    (compiled_of_ofDefinitions hdefinitions).keepsApart⟩

/-- A repetition inside another one, and rules ahead of the rule and the token they refer to. -/
def nestedLoops : Text := "s = \x7b \x7b t \x7d \";\" \x7d; t = T \x7b INT \x7d; T = /a/;".toList

/-- Three repetitions in two rules are kept apart. -/
theorem represents_nestedLoops :
    ∃ grammar definitions, compile nestedLoops = .ok grammar ∧
      Description.read nestedLoops = .ok definitions ∧ grammar.Represents definitions ∧
      grammar.KeepsApart ∧ (loops grammar.rules.toList).map Prod.fst = [1, 2, 3] := by
  have hlabels : (compile nestedLoops).toOption.any (fun grammar =>
      (loops grammar.rules.toList).map Prod.fst = [1, 2, 3]) = true := by
    decide +kernel
  obtain ⟨grammar, hgrammar, hlabels⟩ := (Option.any_eq_true ..).1 hlabels
  have hcompile := Except.toOption_eq_some.1 hgrammar
  obtain ⟨definitions, hread, hrepresents, hapart⟩ := represents_of_compile hcompile
  exact ⟨grammar, definitions, hcompile, hread, hrepresents, hapart, of_decide_eq_true hlabels⟩

end Grammar

end Retrace
