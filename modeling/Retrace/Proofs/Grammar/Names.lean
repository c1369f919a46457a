import Retrace.Proofs.Grammar.Compile
import Retrace.Proofs.Grammar.Plain
import Mathlib.Data.List.Nodup

/-!
# Names are collected and resolved

Compiling first collects the tokens and rules of all definitions, then it resolves names to them.
Collecting succeeds on readable definitions whose names are distinct, and only on such, apart from
rules that a later token is named like (`Collected.Collects`, `Collected.exists_foldlM_add`).
Resolving succeeds if all names have been collected, and changes nothing but names and labels
(`Collected.Resolves`).

## Main definitions

* `Description.tokenNames`, `Description.plainRules`: what definitions define, by name;
* `Grammar.writtenTokens`, `Grammar.writtenRules`: what definitions define, in full;
* `Grammar.Readable`: a definition has a known name and a pattern that can be read;
* `Grammar.Distinct`: no two tokens and rules have the same name;
* `Collected.Collects`: what has been collected from some definitions;
* `Collected.Resolves`: an expression is what a plain one resolves to.
-/

namespace Retrace

namespace Description

/-- The names of the tokens that are defined, in order. -/
def tokenNames (definitions : List Definition) : List String :=
  definitions.filterMap fun definition =>
    match definition.body with
    | .token _ => some definition.name
    | _ => none

/-- The rules that are defined, in order: their names and what they stand for. -/
def plainRules (definitions : List Definition) : List (String × Plain) :=
  definitions.filterMap fun definition =>
    match definition.body with
    | .rule expr => some (definition.name, expr.plain)
    | _ => none

end Description

namespace Grammar

open Description

/-- The tokens that are defined, in order: their names and what their patterns are read as. -/
def writtenTokens (definitions : List Definition) : List (String × Option Shape) :=
  definitions.filterMap fun definition =>
    match definition.body with
    | .token pattern => some (definition.name, anchored? pattern)
    | _ => none

/-- The rules that are defined, in order: their names and what is written for them. -/
def writtenRules (definitions : List Definition) : List (String × RawExpr) :=
  definitions.filterMap fun definition =>
    match definition.body with
    | .rule expr => some (definition.name, expr)
    | _ => none

theorem map_fst_writtenTokens (definitions : List Definition) :
    (writtenTokens definitions).map Prod.fst = tokenNames definitions := by
  rw [writtenTokens, List.map_filterMap, tokenNames]
  refine List.filterMap_congr fun definition _ => ?_
  cases definition.body <;> rfl

theorem map_plain_writtenRules (definitions : List Definition) :
    (writtenRules definitions).map (fun rule => (rule.1, rule.2.plain)) =
      plainRules definitions := by
  rw [writtenRules, List.map_filterMap, plainRules]
  refine List.filterMap_congr fun definition _ => ?_
  cases definition.body <;> rfl

/-- A directive has the name of the only one there is, and patterns can be read. -/
def Readable (definition : Definition) : Prop :=
  match definition.body with
  | .directive pattern => definition.name = "skip" ∧ (anchored? pattern).isSome
  | .token pattern => (anchored? pattern).isSome
  | .rule _ => True

/-- No two tokens have the same name, no two rules, and no token and rule. -/
structure Distinct (tokenNames ruleNames : List String) : Prop where
  /-- No name is that of two tokens. -/
  nodup_tokens : tokenNames.Nodup
  /-- No name is that of two rules. -/
  nodup_rules : ruleNames.Nodup
  /-- No rule is named like a token. -/
  not_mem_tokens : ∀ name ∈ ruleNames, name ∉ tokenNames

/-- Names are different if those before the last one are, and it is none of them. -/
theorem nodup_concat_iff {names : List String} {name : String} :
    (names ++ [name]).Nodup ↔ names.Nodup ∧ name ∉ names := by
  rw [List.nodup_append]
  refine and_congr_right fun _ => ⟨fun h hmem => h.2 name hmem name (by simp) rfl, fun h => ?_⟩
  refine ⟨List.nodup_singleton name, fun other hother last hlast heq => h ?_⟩
  rwa [← List.mem_singleton.1 hlast, ← heq]

/-- Some of several distinct names are distinct. -/
theorem Distinct.of_append {tokenNames tokenNames' ruleNames ruleNames' : List String}
    (h : Distinct (tokenNames ++ tokenNames') (ruleNames ++ ruleNames')) :
    Distinct tokenNames ruleNames where
  nodup_tokens := h.nodup_tokens.of_append_left
  nodup_rules := h.nodup_rules.of_append_left
  not_mem_tokens name hname hmem :=
    h.not_mem_tokens name (List.mem_append_left _ hname) (List.mem_append_left _ hmem)

namespace Collected

/-- The names of the tokens collected so far. -/
def tokenNames (collected : Collected) : List String :=
  collected.tokens.map Token.name

/-- The rules collected so far, by name. -/
def plainRules (collected : Collected) : List (String × Plain) :=
  collected.rules.map fun rule => (rule.name, rule.body.plain)

/-- The names of the rules collected so far. -/
def ruleNames (collected : Collected) : List String :=
  collected.plainRules.map Prod.fst

variable {collected later : Collected} {name : String}

theorem isSome_token?_iff : (collected.token? name).isSome ↔ name ∈ collected.tokenNames := by
  simp [token?, tokenNames]

theorem isSome_rule?_iff : (collected.rule? name).isSome ↔ name ∈ collected.ruleNames := by
  simp [rule?, ruleNames, plainRules]

/-- Exactly the names of tokens and rules stand for something. -/
theorem isSome_target?_iff :
    (collected.target? name).isSome ↔
      name ∈ collected.tokenNames ∨ name ∈ collected.ruleNames := by
  rw [← isSome_token?_iff, ← isSome_rule?_iff, target?]
  cases collected.token? name <;> simp

/-! ## Collecting -/

/-- What has been collected from some definitions, after what had been collected before. -/
structure Collects (collected : Collected) (definitions : List Definition) (later : Collected) :
    Prop where
  /-- The definitions can be read. -/
  readable : ∀ definition ∈ definitions, Readable definition
  /-- The tokens are those from before and those defined. -/
  tokens_eq : later.tokens.map (fun token => (token.name, some token.shape)) =
    collected.tokens.map (fun token => (token.name, some token.shape)) ++ writtenTokens definitions
  /-- The rules are those from before and those defined. -/
  rules_eq : later.rules.map (fun rule => (rule.name, rule.body)) =
    collected.rules.map (fun rule => (rule.name, rule.body)) ++ writtenRules definitions
  /-- Tokens with different names remain so. -/
  nodup_tokens : collected.tokenNames.Nodup → later.tokenNames.Nodup
  /-- Rules with different names remain so. -/
  nodup_rules : collected.ruleNames.Nodup → later.ruleNames.Nodup

namespace Collects

theorem nil (collected : Collected) : collected.Collects [] collected where
  readable := nofun
  tokens_eq := by simp [writtenTokens]
  rules_eq := by simp [writtenRules]
  nodup_tokens := id
  nodup_rules := id

/-- What is collected from one definition, and then from others. -/
theorem cons {definition : Definition} {definitions : List Definition} {middle : Collected}
    (h : collected.Collects [definition] middle) (h' : middle.Collects definitions later) :
    collected.Collects (definition :: definitions) later where
  readable := List.forall_mem_cons.2
    ⟨h.readable definition List.mem_cons_self, h'.readable⟩
  tokens_eq := by
    -- What the first definition defines stands before what the others do.
    rw [h'.tokens_eq, h.tokens_eq, List.append_assoc, writtenTokens, writtenTokens,
      ← List.filterMap_append]
    rfl
  rules_eq := by
    rw [h'.rules_eq, h.rules_eq, List.append_assoc, writtenRules, writtenRules,
      ← List.filterMap_append]
    rfl
  nodup_tokens hnodup := h'.nodup_tokens (h.nodup_tokens hnodup)
  nodup_rules hnodup := h'.nodup_rules (h.nodup_rules hnodup)

theorem tokenNames_eq {definitions : List Definition} (h : collected.Collects definitions later) :
    later.tokenNames = collected.tokenNames ++ Description.tokenNames definitions := by
  have hnames := congrArg (List.map Prod.fst) h.tokens_eq
  rw [List.map_append, List.map_map, List.map_map, map_fst_writtenTokens] at hnames
  exact hnames

theorem plainRules_eq {definitions : List Definition} (h : collected.Collects definitions later) :
    later.plainRules = collected.plainRules ++ Description.plainRules definitions := by
  have hrules := congrArg (List.map fun rule => (rule.1, rule.2.plain)) h.rules_eq
  rw [List.map_append, List.map_map, List.map_map, map_plain_writtenRules] at hrules
  exact hrules

theorem ruleNames_eq {definitions : List Definition} (h : collected.Collects definitions later) :
    later.ruleNames =
      collected.ruleNames ++ (Description.plainRules definitions).map Prod.fst := by
  rw [ruleNames, h.plainRules_eq, List.map_append]
  rfl

end Collects

/-- A definition that is added is readable and does not have a name that is taken. -/
theorem collects_of_add {definition : Definition} (h : collected.add definition = .ok later) :
    collected.Collects [definition] later := by
  obtain ⟨name, body, span⟩ := definition
  -- A directive takes no name; a token and a rule take one that was free.
  cases body with
  | directive pattern =>
    simp only [add] at h
    split at h
    · cases h
    · rename_i hname
      split at h
      · rename_i skip hskip
        obtain rfl := Except.ok.inj h
        refine ⟨by simpa [Readable, hskip] using hname, ?_, ?_, id, id⟩
        · simp [writtenTokens]
        · simp [writtenRules]
      · cases h
  | token pattern =>
    simp only [add] at h
    split at h
    · cases h
    · rename_i hname
      split at h
      · rename_i shape hshape
        obtain rfl := Except.ok.inj h
        rw [isSome_token?_iff] at hname
        refine ⟨by simp [Readable, hshape], ?_, ?_, fun hnodup => ?_, id⟩
        · simp [writtenTokens, hshape]
        · simp [writtenRules]
        · rw [tokenNames, List.map_append]
          exact nodup_concat_iff.2 ⟨hnodup, hname⟩
      · cases h
  | rule expr =>
    simp only [add] at h
    split at h
    · cases h
    · rename_i hname
      obtain rfl := Except.ok.inj h
      rw [isSome_token?_iff, isSome_rule?_iff, not_or] at hname
      refine ⟨by simp [Readable], ?_, ?_, id, fun hnodup => ?_⟩
      · simp [writtenTokens]
      · simp [writtenRules]
      · rw [ruleNames, plainRules, List.map_append, List.map_append]
        exact nodup_concat_iff.2 ⟨hnodup, hname.2⟩

/-- What is collected from all definitions, if all of them are added. -/
theorem collects_of_foldlM_add {definitions : List Definition}
    (h : definitions.foldlM add collected = .ok later) : collected.Collects definitions later := by
  induction definitions generalizing collected with
  | nil =>
    obtain rfl := Except.ok.inj h
    exact .nil collected
  | cons definition definitions ih =>
    rw [List.foldlM_cons] at h
    obtain ⟨middle, hadd, h⟩ := Except.bind_eq_ok.1 h
    exact (collects_of_add hadd).cons (ih h)

/-- A readable definition with a name of its own is added. -/
theorem exists_add {definition : Definition} (hreadable : Readable definition)
    (hdistinct : Distinct (collected.tokenNames ++ Description.tokenNames [definition])
      (collected.ruleNames ++ (Description.plainRules [definition]).map Prod.fst)) :
    ∃ later, collected.add definition = .ok later := by
  obtain ⟨name, body, span⟩ := definition
  cases body with
  | directive pattern =>
    obtain ⟨rfl, hpattern⟩ : name = "skip" ∧ (anchored? pattern).isSome := hreadable
    obtain ⟨skip, hskip⟩ := Option.isSome_iff_exists.1 hpattern
    exact ⟨_, by simp [add, hskip]; rfl⟩
  | token pattern =>
    obtain ⟨shape, hshape⟩ := Option.isSome_iff_exists.1 hreadable
    -- The name is the last of all that are distinct, so it is not among those before it.
    have hname : name ∉ collected.tokenNames := (nodup_concat_iff.1 hdistinct.nodup_tokens).2
    rw [← isSome_token?_iff] at hname
    exact ⟨_, by simp only [add, if_neg hname, hshape]; rfl⟩
  | rule expr =>
    have hrule : name ∉ collected.ruleNames := (nodup_concat_iff.1 hdistinct.nodup_rules).2
    have htoken : name ∉ collected.tokenNames := by
      have hnot := hdistinct.not_mem_tokens name (by simp [Description.plainRules])
      exact fun hmem => hnot (List.mem_append_left _ hmem)
    rw [← isSome_rule?_iff] at hrule
    rw [← isSome_token?_iff] at htoken
    exact ⟨_, by simp only [add, htoken, hrule, or_self]; rfl⟩

/-- Readable definitions with names of their own are all added. -/
theorem exists_foldlM_add {definitions : List Definition}
    (hreadable : ∀ definition ∈ definitions, Readable definition)
    (hdistinct : Distinct (collected.tokenNames ++ Description.tokenNames definitions)
      (collected.ruleNames ++ (Description.plainRules definitions).map Prod.fst)) :
    ∃ later, definitions.foldlM add collected = .ok later := by
  induction definitions generalizing collected with
  | nil => exact ⟨collected, rfl⟩
  | cons definition definitions ih =>
    obtain ⟨hfirst, hothers⟩ := List.forall_mem_cons.1 hreadable
    -- The names of the first definition stand before those of the others.
    rw [show definition :: definitions = [definition] ++ definitions from rfl,
      Description.tokenNames, Description.plainRules, List.filterMap_append,
      List.filterMap_append, List.map_append, ← List.append_assoc, ← List.append_assoc] at hdistinct
    obtain ⟨middle, hadd⟩ := exists_add hfirst hdistinct.of_append
    have hmiddle := collects_of_add hadd
    obtain ⟨later, hlater⟩ := ih hothers (by
      rw [hmiddle.tokenNames_eq, hmiddle.ruleNames_eq]
      exact hdistinct)
    exact ⟨later, by rw [List.foldlM_cons, hadd]; exact hlater⟩

/-! ## Resolving -/

/-- An expression is what a plain one resolves to: its names are replaced by what they stand for,
and its repetitions are labelled. -/
def Resolves (collected : Collected) (plain : Plain) (expr : Production) : Prop :=
  expr.map some (fun _ => ()) = plain.map collected.target? id

/-- What resolving several expressions gives, one after the other. -/
theorem resolves_of_resolveAll {rule : String} {raw : List RawExpr}
    (hitems : ∀ item ∈ raw, ∀ {used used' expr},
      collected.resolve rule used item = .ok (expr, used') → collected.Resolves item.plain expr)
    {used used' : Nat} {exprs : List Production}
    (h : collected.resolveAll rule used raw = .ok (exprs, used')) :
    exprs.map (Expr.map some fun _ => ()) =
      (raw.map Expr.plain).map (Expr.map collected.target? id) := by
  induction raw generalizing used used' exprs with
  | nil =>
    obtain ⟨⟩ := resolveAll_nil_eq_ok.1 h
    rfl
  | cons first others ih =>
    obtain ⟨expr, middle, exprs, used'', hfirst, hothers, ⟨⟩⟩ := resolveAll_cons_eq_ok.1 h
    have hexpr := hitems first List.mem_cons_self hfirst
    have hexprs := ih (fun item hitem => hitems item (List.mem_cons_of_mem _ hitem)) hothers
    rw [List.map_cons, List.map_cons, List.map_cons, hexprs]
    exact congrArg (· :: _) hexpr

/-- Resolving changes nothing but names and labels. -/
theorem resolves_of_resolve {rule : String} {raw : RawExpr} {used used' : Nat} {expr : Production}
    (h : collected.resolve rule used raw = .ok (expr, used')) :
    collected.Resolves raw.plain expr := by
  induction raw using Expr.ind generalizing used used' expr with
  | literal text =>
    obtain ⟨⟩ := resolve_literal_eq_ok.1 h
    simp [Resolves, Expr.plain]
  | call reference =>
    obtain ⟨target, htarget, ⟨⟩⟩ := resolve_call_eq_ok.1 h
    simp [Resolves, Expr.plain, htarget]
  | seq items ih =>
    obtain ⟨exprs, used'', hitems, ⟨⟩⟩ := resolve_seq_eq_ok.1 h
    rw [Resolves, Expr.plain, Expr.map_seq, Expr.map_seq, Expr.map_seq]
    exact congrArg _ (resolves_of_resolveAll ih hitems)
  | either branches ih =>
    obtain ⟨exprs, used'', hbranches, ⟨⟩⟩ := resolve_either_eq_ok.1 h
    rw [Resolves, Expr.plain, Expr.map_either, Expr.map_either, Expr.map_either]
    exact congrArg _ (resolves_of_resolveAll ih hbranches)
  | optional body ih =>
    obtain ⟨expr, used'', hbody, ⟨⟩⟩ := resolve_optional_eq_ok.1 h
    rw [Resolves, Expr.plain, Expr.map_optional, Expr.map_optional, Expr.map_optional]
    exact congrArg _ (ih hbody)
  | loop label body ih =>
    -- The label is new, and the plain form has none to compare it with.
    obtain ⟨expr, used'', hbody, ⟨⟩⟩ := resolve_loop_eq_ok.1 h
    rw [Resolves, Expr.plain, Expr.map_loop, Expr.map_loop, Expr.map_loop]
    exact congrArg _ (ih hbody)

/-- The rules are resolved one by one. -/
theorem resolves_of_resolveRules {written : List RawRule} {used : Nat} {rules : List Rule}
    (h : collected.resolveRules used written = .ok rules) :
    (rules.map Rule.body).map (Expr.map some fun _ => ()) =
      ((written.map fun rule => (rule.name, rule.body.plain)).map Prod.snd).map
        (Expr.map collected.target? id) := by
  induction written generalizing used rules with
  | nil =>
    obtain rfl := resolveRules_nil_eq_ok.1 h
    rfl
  | cons first others ih =>
    obtain ⟨body, middle, resolved, hbody, hothers, rfl⟩ := resolveRules_cons_eq_ok.1 h
    have hfirst := resolves_of_resolve hbody
    simp only [List.map_cons, ih hothers]
    exact congrArg (· :: _) hfirst

/-- Names in an expression that resolves stand for something. -/
theorem Resolves.isSome_target? {plain : Plain} {expr : Production} {name : String}
    (h : collected.Resolves plain expr) (hname : plain.Part (.call name)) :
    (collected.target? name).isSome := by
  -- What the name became stands in the resolved expression, where every name became something.
  have hpart : (plain.map collected.target? id).Part ((Expr.call name).map collected.target? id) :=
    hname.map
  rw [← h] at hpart
  obtain ⟨original, -, heq⟩ := Expr.exists_part_of_map hpart
  obtain ⟨target, -, htarget⟩ := Expr.map_eq_call_iff.1 heq
  rw [← htarget]
  rfl

/-- Several expressions can be resolved one after the other if each of them can. -/
theorem exists_resolveAll {rule : String} {raw : List RawExpr}
    (hitems : ∀ item ∈ raw, ∀ used, ∃ expr used',
      collected.resolve rule used item = .ok (expr, used')) (used : Nat) :
    ∃ exprs used', collected.resolveAll rule used raw = .ok (exprs, used') := by
  induction raw generalizing used with
  | nil => exact ⟨_, _, resolveAll_nil_eq_ok.2 rfl⟩
  | cons first others ih =>
    obtain ⟨hfirst, hothers⟩ := List.forall_mem_cons.1 hitems
    obtain ⟨expr, middle, hexpr⟩ := hfirst used
    obtain ⟨exprs, used', hexprs⟩ := ih hothers middle
    exact ⟨_, _, resolveAll_cons_eq_ok.2 ⟨expr, middle, exprs, used', hexpr, hexprs, rfl⟩⟩

/-- An expression can be resolved if every name in it stands for something. -/
theorem exists_resolve {rule : String} {raw : RawExpr}
    (h : ∀ name, raw.plain.Part (.call name) → (collected.target? name).isSome) (used : Nat) :
    ∃ expr used', collected.resolve rule used raw = .ok (expr, used') := by
  -- What the whole refers to is known of the children, since these are parts of it.
  have hchild (whole : RawExpr) {child : RawExpr} (hmem : child ∈ whole.children)
      (h : ∀ name, whole.plain.Part (.call name) → (collected.target? name).isSome) :
      ∀ name, child.plain.Part (.call name) → (collected.target? name).isSome := by
    refine fun name hname => h name (.trans ?_ hname)
    exact (Expr.Part.self.child hmem).map
  induction raw using Expr.ind generalizing used with
  | literal text => exact ⟨_, _, resolve_literal_eq_ok.2 rfl⟩
  | call reference =>
    have htarget := h reference.name (by rw [Expr.plain, Expr.map_call]; exact .self)
    obtain ⟨target, htarget⟩ := Option.isSome_iff_exists.1 htarget
    exact ⟨_, _, resolve_call_eq_ok.2 ⟨target, htarget, rfl⟩⟩
  | seq items ih =>
    obtain ⟨exprs, used', hexprs⟩ := exists_resolveAll
      (fun item hitem used => ih item hitem (hchild (.seq items) hitem h) used) used
    exact ⟨_, _, resolve_seq_eq_ok.2 ⟨exprs, used', hexprs, rfl⟩⟩
  | either branches ih =>
    obtain ⟨exprs, used', hexprs⟩ := exists_resolveAll
      (fun branch hbranch used => ih branch hbranch (hchild (.either branches) hbranch h) used) used
    exact ⟨_, _, resolve_either_eq_ok.2 ⟨exprs, used', hexprs, rfl⟩⟩
  | optional body ih =>
    obtain ⟨expr, used', hexpr⟩ := ih (hchild (.optional body) List.mem_cons_self h) used
    exact ⟨_, _, resolve_optional_eq_ok.2 ⟨expr, used', hexpr, rfl⟩⟩
  | loop label body ih =>
    obtain ⟨expr, used', hexpr⟩ := ih (hchild (.loop label body) List.mem_cons_self h) used
    exact ⟨_, _, resolve_loop_eq_ok.2 ⟨expr, used', hexpr, rfl⟩⟩

/-- Rules can be resolved if every name in them stands for something. -/
theorem exists_resolveRules {written : List RawRule}
    (h : ∀ rule ∈ written, ∀ name, rule.body.plain.Part (.call name) →
      (collected.target? name).isSome) (used : Nat) :
    ∃ rules, collected.resolveRules used written = .ok rules := by
  induction written generalizing used with
  | nil => exact ⟨_, resolveRules_nil_eq_ok.2 rfl⟩
  | cons first others ih =>
    obtain ⟨hfirst, hothers⟩ := List.forall_mem_cons.1 h
    obtain ⟨body, middle, hbody⟩ := exists_resolve hfirst used
    obtain ⟨rules, hrules⟩ := ih hothers middle
    exact ⟨_, resolveRules_cons_eq_ok.2 ⟨body, middle, rules, hbody, hrules, rfl⟩⟩

end Collected

end Grammar

end Retrace
