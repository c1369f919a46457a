import Retrace.Proofs.Grammar.Compile
import Retrace.Proofs.Grammar.Names
import Mathlib.Logic.Relation

/-!
# Which descriptions can be compiled

The checks on a description are spread over several passes: names that clash are found while
definitions are collected, rules that are named like a later token only afterwards, then come
references to nothing, and left recursion is found last, in terms of numbers. Here is what all of
them together ask of the definitions, in terms of the names that are written
(`Grammar.Compilable`), and compiling succeeds exactly on descriptions that are like that
(`Grammar.exists_compile_iff`).

## Main definitions

* `Description.MayBeEmpty`, `Description.BeginsWith`, `Description.LeftRecursive`: left recursion in
  terms of names;
* `Grammar.Compilable`: what is asked of definitions.
-/

namespace Retrace

namespace Description

/-- An expression can match without reading anything, where `rules` tells what names stand for; the
least property with these closure conditions. A token always reads something. -/
inductive MayBeEmpty (rules : List (String × Plain)) : Plain → Prop
  | literal : MayBeEmpty rules (.literal [])
  | call {name : String} {body : Plain} : (name, body) ∈ rules → MayBeEmpty rules body →
      MayBeEmpty rules (.call name)
  | seq {items : List Plain} : (∀ item ∈ items, MayBeEmpty rules item) →
      MayBeEmpty rules (.seq items)
  | either {branches : List Plain} {branch : Plain} : branch ∈ branches →
      MayBeEmpty rules branch → MayBeEmpty rules (.either branches)
  | optional (body : Plain) : MayBeEmpty rules (.optional body)
  | loop (body : Plain) : MayBeEmpty rules (.loop () body)

/-- An expression may refer to a name before any item that reads something. -/
inductive BeginsWith (rules : List (String × Plain)) : Plain → String → Prop
  | call (name : String) : BeginsWith rules (.call name) name
  | seq {front back : List Plain} {item : Plain} {name : String} :
      (∀ ahead ∈ front, MayBeEmpty rules ahead) → BeginsWith rules item name →
      BeginsWith rules (.seq (front ++ item :: back)) name
  | either {branches : List Plain} {branch : Plain} {name : String} : branch ∈ branches →
      BeginsWith rules branch name → BeginsWith rules (.either branches) name
  | optional {body : Plain} {name : String} : BeginsWith rules body name →
      BeginsWith rules (.optional body) name
  | loop {body : Plain} {name : String} : BeginsWith rules body name →
      BeginsWith rules (.loop () body) name

/-- What a rule stands for may refer to a name before any item that reads something. -/
def CallsFirst (rules : List (String × Plain)) (caller callee : String) : Prop :=
  ∃ body, (caller, body) ∈ rules ∧ BeginsWith rules body callee

/-- The rule with a name reaches itself before anything has been read. -/
def LeftRecursive (rules : List (String × Plain)) (name : String) : Prop :=
  Relation.TransGen (CallsFirst rules) name name

end Description

namespace Grammar

open Description LeftRecursion

/-- The names of the tokens that need no definition. -/
def builtinNames : List String :=
  builtinTokens.map Token.name

example : builtinNames = ["IDENT", "INT", "BOOL"] := rfl

/-- What is asked of definitions that are to be compiled, in whatever order they stand. -/
structure Compilable (definitions : List Definition) : Prop where
  /-- Every directive is `@skip`. -/
  directive_name : ∀ definition ∈ definitions, ∀ pattern,
    definition.body = .directive pattern → definition.name = "skip"
  /-- The patterns of directives and tokens can be read. -/
  pattern_readable : ∀ definition ∈ definitions, ∀ pattern,
    definition.body = .directive pattern ∨ definition.body = .token pattern →
      (anchored? pattern).isSome
  /-- No two tokens have the same name. -/
  nodup_tokens : (tokenNames definitions).Nodup
  /-- No token has the name of one that needs no definition. -/
  token_not_builtin : ∀ name ∈ tokenNames definitions, name ∉ builtinNames
  /-- No two rules have the same name. -/
  nodup_rules : ((plainRules definitions).map Prod.fst).Nodup
  /-- No rule has the name of a token. -/
  rule_not_token : ∀ name ∈ (plainRules definitions).map Prod.fst,
    name ∉ builtinNames ∧ name ∉ tokenNames definitions
  /-- There is a rule. -/
  exists_rule : plainRules definitions ≠ []
  /-- Every name in a rule is that of a token or a rule. -/
  call_defined : ∀ rule ∈ plainRules definitions, ∀ name, rule.2.Part (.call name) →
    name ∈ builtinNames ∨ name ∈ tokenNames definitions ∨
      name ∈ (plainRules definitions).map Prod.fst
  /-- No rule is left-recursive. -/
  not_leftRecursive : ∀ name, ¬ LeftRecursive (plainRules definitions) name

/-! ## Left recursion in terms of names and of numbers -/

namespace Collected

variable {collected : Collected} {bodies : List Production}

/-- With distinct names, a name stands for the rule with a number exactly if that rule has the
name. -/
theorem target?_eq_rule_iff (h : Distinct collected.tokenNames collected.ruleNames) {name : String}
    {index : Nat} :
    collected.target? name = some (.rule index) ↔ collected.ruleNames[index]? = some name := by
  have hrule? : collected.rule? name = collected.ruleNames.findIdx? (· = name) := by
    rw [rule?, ruleNames, plainRules, List.map_map, List.findIdx?_map]
    rfl
  constructor
  · -- Tokens are looked up first, so what stands for a rule has been found among the rules.
    intro htarget
    unfold target? at htarget
    split at htarget
    · cases htarget
    · rw [hrule?] at htarget
      obtain ⟨found, hfound, heq⟩ := Option.map_eq_some_iff.1 htarget
      cases heq
      obtain ⟨hlt, hname, -⟩ := List.findIdx?_eq_some_iff_getElem.1 hfound
      rw [List.getElem?_eq_getElem hlt, of_decide_eq_true hname]
  · intro hindex
    obtain ⟨hlt, hname⟩ := List.getElem?_eq_some_iff.1 hindex
    have htoken : collected.token? name = none := by
      rw [← Option.not_isSome_iff_eq_none, isSome_token?_iff]
      exact h.not_mem_tokens name (List.mem_of_getElem? hindex)
    have hfound : collected.ruleNames.findIdx? (· = name) = some index := by
      refine List.findIdx?_eq_some_iff_getElem.2
        ⟨hlt, by simpa using hname, fun earlier hless => ?_⟩
      -- An earlier rule with this name would have the same number.
      have hne := (List.nodup_iff_getElem?_ne_getElem?.1 h.nodup_rules) earlier index hless hlt
      rw [hindex, List.getElem?_eq_getElem (Nat.lt_trans hless hlt)] at hne
      simpa using hne
    rw [target?, htoken, hrule?, hfound]
    rfl

/-- The rules that have been resolved, by number, are those that have been collected. -/
structure Numbered (collected : Collected) (bodies : List Production) : Prop where
  /-- The names are distinct. -/
  distinct : Distinct collected.tokenNames collected.ruleNames
  /-- Every rule has been resolved. -/
  bodies_eq : bodies.map (Expr.map some fun _ => ()) =
    (collected.plainRules.map Prod.snd).map (Expr.map collected.target? id)

namespace Numbered

/-- What a rule stands for by number is what it stands for by name, resolved. -/
theorem exists_rule (h : collected.Numbered bodies) {index : Nat} {body : Production}
    (hbody : bodies[index]? = some body) :
    ∃ name plain, collected.target? name = some (.rule index) ∧
      (name, plain) ∈ collected.plainRules ∧ collected.Resolves plain body := by
  have hindex := congrArg (·[index]?) h.bodies_eq
  simp only [List.getElem?_map, hbody, Option.map_some] at hindex
  obtain ⟨plain, hplain, hresolves⟩ := Option.map_eq_some_iff.1 hindex.symm
  obtain ⟨⟨name, plain⟩, hrule, rfl⟩ := Option.map_eq_some_iff.1 hplain
  refine ⟨name, plain, ?_, List.mem_of_getElem? hrule, hresolves.symm⟩
  rw [target?_eq_rule_iff h.distinct, ruleNames, List.getElem?_map, hrule]
  rfl

/-- Every rule that has been collected has a number. -/
theorem exists_body (h : collected.Numbered bodies) {name : String} {plain : Plain}
    (hrule : (name, plain) ∈ collected.plainRules) :
    ∃ index body, collected.target? name = some (.rule index) ∧
      bodies[index]? = some body ∧ collected.Resolves plain body := by
  obtain ⟨index, hindex⟩ := List.getElem?_of_mem hrule
  have hbody := congrArg (·[index]?) h.bodies_eq
  simp only [List.getElem?_map, hindex, Option.map_some] at hbody
  obtain ⟨body, hbody, hresolves⟩ := Option.map_eq_some_iff.1 hbody
  refine ⟨index, body, ?_, hbody, hresolves⟩
  rw [target?_eq_rule_iff h.distinct, ruleNames, List.getElem?_map, hindex]
  rfl

/-- An expression that can match without reading anything by number can do so by name. -/
theorem mayBeEmpty (h : collected.Numbered bodies) {expr : Production} {plain : Plain}
    (hexpr : Nullable bodies expr) (hresolves : collected.Resolves plain expr) :
    MayBeEmpty collected.plainRules plain := by
  -- Induction on the evidence, since a rule leads to its body, which is no part of the call.
  induction hexpr generalizing plain with
  | literal =>
    rw [Resolves, Expr.map_literal] at hresolves
    obtain rfl := Expr.map_eq_literal_iff.1 hresolves.symm
    exact .literal
  | rule hbody _ ih =>
    rw [Resolves, Expr.map_call] at hresolves
    obtain ⟨name, rfl, htarget⟩ := Expr.map_eq_call_iff.1 hresolves.symm
    obtain ⟨name', plain, htarget', hrule, hbody'⟩ := h.exists_rule hbody
    -- The rule with this number has the name that is called.
    rw [target?_eq_rule_iff h.distinct] at htarget htarget'
    obtain rfl := Option.some.inj (htarget.symm.trans htarget')
    exact .call hrule (ih hbody')
  | seq _ ih =>
    rw [Resolves, Expr.map_seq] at hresolves
    obtain ⟨items, rfl, hitems⟩ := Expr.map_eq_seq_iff.1 hresolves.symm
    refine .seq fun item hitem => ?_
    obtain ⟨expr, hexpr, heq⟩ := Expr.exists_mem_of_map_eq hitems hitem
    exact ih expr hexpr heq
  | either hbranch _ ih =>
    rw [Resolves, Expr.map_either] at hresolves
    obtain ⟨branches, rfl, hbranches⟩ := Expr.map_eq_either_iff.1 hresolves.symm
    obtain ⟨branch, hmem, heq⟩ := Expr.exists_mem_of_map_eq hbranches.symm hbranch
    exact .either hmem (ih heq.symm)
  | optional body =>
    rw [Resolves, Expr.map_optional] at hresolves
    obtain ⟨body', rfl, -⟩ := Expr.map_eq_optional_iff.1 hresolves.symm
    exact .optional body'
  | loop label body =>
    rw [Resolves, Expr.map_loop] at hresolves
    obtain ⟨⟨⟩, body', rfl, -, -⟩ := Expr.map_eq_loop_iff.1 hresolves.symm
    exact .loop body'

/-- An expression that can match without reading anything by name can do so by number. -/
theorem nullable (h : collected.Numbered bodies) {expr : Production} {plain : Plain}
    (hplain : MayBeEmpty collected.plainRules plain) (hresolves : collected.Resolves plain expr) :
    Nullable bodies expr := by
  -- As in the other direction, the induction is on the evidence.
  induction hplain generalizing expr with
  | literal =>
    rw [Resolves, Expr.map_literal] at hresolves
    obtain rfl := Expr.map_eq_literal_iff.1 hresolves
    exact .literal
  | call hrule _ ih =>
    rw [Resolves, Expr.map_call] at hresolves
    obtain ⟨target, rfl, htarget⟩ := Expr.map_eq_call_iff.1 hresolves
    obtain ⟨index, body, htarget', hbody, hbody'⟩ := h.exists_body hrule
    obtain rfl := Option.some.inj (htarget.trans htarget')
    exact .rule hbody (ih hbody')
  | seq _ ih =>
    rw [Resolves, Expr.map_seq] at hresolves
    obtain ⟨items, rfl, hitems⟩ := Expr.map_eq_seq_iff.1 hresolves
    refine .seq fun item hitem => ?_
    obtain ⟨plain, hplain, heq⟩ := Expr.exists_mem_of_map_eq hitems hitem
    exact ih plain hplain heq.symm
  | either hbranch _ ih =>
    rw [Resolves, Expr.map_either] at hresolves
    obtain ⟨branches, rfl, hbranches⟩ := Expr.map_eq_either_iff.1 hresolves
    obtain ⟨branch, hmem, heq⟩ := Expr.exists_mem_of_map_eq hbranches.symm hbranch
    exact .either hmem (ih heq)
  | optional body =>
    rw [Resolves, Expr.map_optional] at hresolves
    obtain ⟨body', rfl, -⟩ := Expr.map_eq_optional_iff.1 hresolves
    exact .optional body'
  | loop body =>
    rw [Resolves, Expr.map_loop] at hresolves
    obtain ⟨label, body', rfl, -, -⟩ := Expr.map_eq_loop_iff.1 hresolves
    exact .loop label body'

/-- A call on the left by number is a reference at the beginning by name. -/
theorem beginsWith (h : collected.Numbered bodies) {expr : Production} {plain : Plain} {index : Nat}
    (hexpr : Leads bodies expr index) (hresolves : collected.Resolves plain expr) :
    ∃ name, collected.target? name = some (.rule index) ∧
      BeginsWith collected.plainRules plain name := by
  induction hexpr generalizing plain with
  | rule index =>
    rw [Resolves, Expr.map_call] at hresolves
    obtain ⟨name, rfl, htarget⟩ := Expr.map_eq_call_iff.1 hresolves.symm
    exact ⟨name, htarget, .call name⟩
  | seq hfront _ ih =>
    rw [Resolves, Expr.map_seq] at hresolves
    obtain ⟨items, rfl, hitems⟩ := Expr.map_eq_seq_iff.1 hresolves.symm
    obtain ⟨front, item, back, rfl, hfront', hitem⟩ := Expr.exists_cut_of_map_eq hitems
    obtain ⟨name, htarget, hname⟩ := ih hitem.symm
    -- What stands ahead of the item can be empty by number, and so it can by name.
    refine ⟨name, htarget, .seq (fun ahead hahead => ?_) hname⟩
    obtain ⟨expr, hexpr, heq⟩ := Expr.exists_mem_of_map_eq hfront' hahead
    exact h.mayBeEmpty (hfront expr hexpr) heq
  | either hbranch _ ih =>
    rw [Resolves, Expr.map_either] at hresolves
    obtain ⟨branches, rfl, hbranches⟩ := Expr.map_eq_either_iff.1 hresolves.symm
    obtain ⟨branch, hmem, heq⟩ := Expr.exists_mem_of_map_eq hbranches.symm hbranch
    obtain ⟨name, htarget, hname⟩ := ih heq.symm
    exact ⟨name, htarget, .either hmem hname⟩
  | optional _ ih =>
    rw [Resolves, Expr.map_optional] at hresolves
    obtain ⟨body, rfl, hbody⟩ := Expr.map_eq_optional_iff.1 hresolves.symm
    obtain ⟨name, htarget, hname⟩ := ih hbody.symm
    exact ⟨name, htarget, .optional hname⟩
  | loop _ ih =>
    rw [Resolves, Expr.map_loop] at hresolves
    obtain ⟨⟨⟩, body, rfl, -, hbody⟩ := Expr.map_eq_loop_iff.1 hresolves.symm
    obtain ⟨name, htarget, hname⟩ := ih hbody.symm
    exact ⟨name, htarget, .loop hname⟩

/-- A reference at the beginning by name is a call on the left by number. -/
theorem leads (h : collected.Numbered bodies) {expr : Production} {plain : Plain} {name : String}
    {index : Nat} (hplain : BeginsWith collected.plainRules plain name)
    (hresolves : collected.Resolves plain expr)
    (htarget : collected.target? name = some (.rule index)) : Leads bodies expr index := by
  induction hplain generalizing expr with
  | call name =>
    rw [Resolves, Expr.map_call] at hresolves
    obtain ⟨target, rfl, htarget'⟩ := Expr.map_eq_call_iff.1 hresolves
    obtain rfl := Option.some.inj (htarget'.trans htarget)
    exact .rule index
  | seq hfront _ ih =>
    rw [Resolves, Expr.map_seq] at hresolves
    obtain ⟨items, rfl, hitems⟩ := Expr.map_eq_seq_iff.1 hresolves
    obtain ⟨front, item, back, rfl, hfront', hitem⟩ := Expr.exists_cut_of_map_eq hitems
    -- What stands ahead of the item can be empty by name, and so it can by number.
    refine .seq (fun ahead hahead => ?_) (ih hitem htarget)
    obtain ⟨plain, hplain, heq⟩ := Expr.exists_mem_of_map_eq hfront' hahead
    exact h.nullable (hfront plain hplain) heq.symm
  | either hbranch _ ih =>
    rw [Resolves, Expr.map_either] at hresolves
    obtain ⟨branches, rfl, hbranches⟩ := Expr.map_eq_either_iff.1 hresolves
    obtain ⟨branch, hmem, heq⟩ := Expr.exists_mem_of_map_eq hbranches.symm hbranch
    exact .either hmem (ih heq htarget)
  | optional _ ih =>
    rw [Resolves, Expr.map_optional] at hresolves
    obtain ⟨body, rfl, hbody⟩ := Expr.map_eq_optional_iff.1 hresolves
    exact .optional (ih hbody htarget)
  | loop _ ih =>
    rw [Resolves, Expr.map_loop] at hresolves
    obtain ⟨label, body, rfl, -, hbody⟩ := Expr.map_eq_loop_iff.1 hresolves
    exact .loop (ih hbody htarget)

/-- A rule that calls another one on the left by number does so by name. -/
theorem callsFirst (h : collected.Numbered bodies) {caller callee : Nat}
    (hcall : CallsLeft bodies caller callee) :
    ∃ name name', collected.target? name = some (.rule caller) ∧
      collected.target? name' = some (.rule callee) ∧
      CallsFirst collected.plainRules name name' := by
  obtain ⟨body, hbody, hleads⟩ := hcall
  obtain ⟨name, plain, htarget, hrule, hresolves⟩ := h.exists_rule hbody
  obtain ⟨name', htarget', hname⟩ := h.beginsWith hleads hresolves
  exact ⟨name, name', htarget, htarget', plain, hrule, hname⟩

/-- A rule that calls another one first by name does so on the left by number. -/
theorem callsLeft (h : collected.Numbered bodies) {name name' : String} {callee : Nat}
    (hcall : CallsFirst collected.plainRules name name')
    (htarget : collected.target? name' = some (.rule callee)) :
    ∃ caller, collected.target? name = some (.rule caller) ∧ CallsLeft bodies caller callee := by
  obtain ⟨plain, hrule, hname⟩ := hcall
  obtain ⟨caller, body, htarget', hbody, hresolves⟩ := h.exists_body hrule
  exact ⟨caller, htarget', body, hbody, h.leads hname hresolves htarget⟩

/-- Names of the same rule are the same. -/
theorem name_inj (h : collected.Numbered bodies) {name name' : String} {index : Nat}
    (hname : collected.target? name = some (.rule index))
    (hname' : collected.target? name' = some (.rule index)) : name = name' := by
  rw [target?_eq_rule_iff h.distinct] at hname hname'
  exact Option.some.inj (hname.symm.trans hname')

/-- Going back along calls by name from a rule with a number, every caller has a number. -/
theorem exists_callsLeft_of_callsFirst (h : collected.Numbered bodies) {caller callee : String}
    (hcalls : Relation.TransGen (CallsFirst collected.plainRules) caller callee) {index : Nat}
    (hindex : collected.target? callee = some (.rule index)) :
    ∃ first, collected.target? caller = some (.rule first) ∧
      Relation.TransGen (CallsLeft bodies) first index := by
  induction hcalls using Relation.TransGen.head_induction_on with
  | single hcall =>
    obtain ⟨first, hfirst, hcall⟩ := h.callsLeft hcall hindex
    exact ⟨first, hfirst, .single hcall⟩
  | head hcall _ ih =>
    obtain ⟨second, hsecond, hcalls⟩ := ih
    obtain ⟨first, hfirst, hcall⟩ := h.callsLeft hcall hsecond
    exact ⟨first, hfirst, .head hcall hcalls⟩

/-- Forward along calls by number, the name that is called is the name of the next caller. -/
theorem exists_callsFirst_of_callsLeft (h : collected.Numbered bodies) {caller callee : Nat}
    (hcalls : Relation.TransGen (CallsLeft bodies) caller callee) :
    ∃ name name', collected.target? name = some (.rule caller) ∧
      collected.target? name' = some (.rule callee) ∧
      Relation.TransGen (CallsFirst collected.plainRules) name name' := by
  induction hcalls with
  | single hcall =>
    obtain ⟨name, name', hname, hname', hcall⟩ := h.callsFirst hcall
    exact ⟨name, name', hname, hname', .single hcall⟩
  | tail _ hcall ih =>
    obtain ⟨name, middle, hname, hmiddle, hcalls⟩ := ih
    obtain ⟨middle', name', hmiddle', hname', hcall⟩ := h.callsFirst hcall
    obtain rfl := h.name_inj hmiddle hmiddle'
    exact ⟨name, name', hname, hname', hcalls.tail hcall⟩

/-- A rule is left-recursive by number exactly if it is by name. -/
theorem leftRecursive_iff (h : collected.Numbered bodies) :
    (∀ index, ¬ IsLeftRecursive bodies index) ↔
      ∀ name, ¬ LeftRecursive collected.plainRules name := by
  constructor
  · intro hnone name hname
    -- The rule calls something, so it is one that has been collected.
    obtain ⟨_, ⟨plain, hrule, -⟩, -⟩ := Relation.TransGen.head'_iff.1 hname
    obtain ⟨index, -, hindex, -, -⟩ := h.exists_body hrule
    obtain ⟨first, hfirst, hcalls⟩ := h.exists_callsLeft_of_callsFirst hname hindex
    cases hindex.symm.trans hfirst
    exact hnone index hcalls
  · intro hnone index hindex
    obtain ⟨name, name', hname, hname', hcalls⟩ := h.exists_callsFirst_of_callsLeft hindex
    obtain rfl := h.name_inj hname hname'
    exact hnone name hcalls

end Numbered

end Collected

/-! ## All checks together -/

/-- Rules pass the check of their names exactly if none is named like a token. -/
theorem forIn_duplicate_eq_ok_iff {collected : Collected} {rules : List RawRule} :
    (forIn rules PUnit.unit fun rule (_ : PUnit) =>
      if (collected.token? rule.name).isSome then
        (throw (.duplicate rule.name rule.span) : Except GrammarError (ForInStep PUnit))
      else pure (.yield PUnit.unit)) = .ok PUnit.unit ↔
      ∀ rule ∈ rules, rule.name ∉ collected.tokenNames := by
  induction rules with
  | nil => simp [pure, Except.pure]
  | cons rule rules ih =>
    rw [List.forIn_cons, List.forall_mem_cons, ← ih, ← Collected.isSome_token?_iff]
    split
    · rename_i hname
      simp [hname, throw, throwThe, MonadExceptOf.throw, bind, Except.bind]
    · rename_i hname
      simp [hname, bind, Except.bind, pure, Except.pure]

/-- What happens when definitions are compiled, pass by pass, and what is made of them. -/
theorem ofDefinitions_eq_ok_iff {definitions : List Definition} {grammar : Grammar} :
    ofDefinitions definitions = .ok grammar ↔
      ∃ collected, definitions.foldlM Collected.add .start = .ok collected ∧
        collected.plainRules ≠ [] ∧
        (∀ name ∈ collected.ruleNames, name ∉ collected.tokenNames) ∧
        ∃ rules, collected.resolveRules 0 collected.rules = .ok rules ∧
          checkLeftRecursion collected.rules rules = .ok () ∧
          ⟨collected.tokens.toArray, rules.toArray, collected.skip, Plan.ofRules rules⟩ =
            grammar := by
  constructor
  · intro h
    obtain ⟨collected, hcollected, h⟩ := Except.bind_eq_ok.1 h
    dsimp only at h
    split at h
    · cases h
    · rename_i hrules
      obtain ⟨⟨⟩, hnames, h⟩ := Except.bind_eq_ok.1 h
      obtain ⟨rules, hresolve, h⟩ := Except.bind_eq_ok.1 h
      obtain ⟨⟨⟩, hcheck, h⟩ := Except.bind_eq_ok.1 h
      refine ⟨collected, hcollected, ?_, ?_, rules, hresolve, hcheck, Except.ok.inj h⟩
      · rwa [Collected.plainRules, ne_eq, List.map_eq_nil_iff, ← List.isEmpty_iff]
      · simpa [Collected.ruleNames, Collected.plainRules] using forIn_duplicate_eq_ok_iff.1 hnames
  · rintro ⟨collected, hcollected, hrules, hnames, rules, hresolve, hcheck, rfl⟩
    refine Except.bind_eq_ok.2 ⟨collected, hcollected, ?_⟩
    rw [Collected.plainRules, ne_eq, List.map_eq_nil_iff, ← List.isEmpty_iff] at hrules
    dsimp only
    rw [if_neg hrules]
    refine Except.bind_eq_ok.2 ⟨⟨⟩, forIn_duplicate_eq_ok_iff.2 ?_, ?_⟩
    · simpa [Collected.ruleNames, Collected.plainRules] using hnames
    · refine Except.bind_eq_ok.2 ⟨rules, hresolve, ?_⟩
      exact Except.bind_eq_ok.2 ⟨⟨⟩, hcheck, rfl⟩

/-- With distinct names, rules can be resolved and pass the check for left recursion exactly if
every name in them has been collected and none of them is left-recursive by name. -/
theorem Collected.exists_resolveRules_iff {collected : Collected}
    (h : Distinct collected.tokenNames collected.ruleNames) :
    (∃ rules, collected.resolveRules 0 collected.rules = .ok rules ∧
        checkLeftRecursion collected.rules rules = .ok ()) ↔
      (∀ rule ∈ collected.plainRules, ∀ name, rule.2.Part (.call name) →
          name ∈ collected.tokenNames ∨ name ∈ collected.ruleNames) ∧
        ∀ name, ¬ LeftRecursive collected.plainRules name := by
  have hcheck {rules : List Rule}
      (hresolve : collected.resolveRules 0 collected.rules = .ok rules) :
      checkLeftRecursion collected.rules rules = .ok () ↔
        ∀ name, ¬ LeftRecursive collected.plainRules name := by
    have hnumbered : collected.Numbered (rules.map Rule.body) :=
      ⟨h, resolves_of_resolveRules hresolve⟩
    rw [checkLeftRecursion_eq_ok_iff (resolved_of_resolveRules hresolve).1.symm,
      hnumbered.leftRecursive_iff]
  simp only [← isSome_target?_iff]
  constructor
  · rintro ⟨rules, hresolve, hpass⟩
    refine ⟨fun rule hmem name hname => ?_, (hcheck hresolve).1 hpass⟩
    obtain ⟨body, -, hresolves⟩ := Expr.exists_mem_of_map_eq
      (resolves_of_resolveRules hresolve).symm (List.mem_map_of_mem hmem)
    exact Resolves.isSome_target? hresolves hname
  · -- All references are defined, so there are rules to check in the first place.
    rintro ⟨hdefined, hnone⟩
    have hwritten : ∀ rule ∈ collected.rules, ∀ name, rule.body.plain.Part (.call name) →
        (collected.target? name).isSome := fun rule hmem =>
      hdefined (rule.name, rule.body.plain) (List.mem_map.2 ⟨rule, hmem, rfl⟩)
    obtain ⟨rules, hresolve⟩ := exists_resolveRules hwritten 0
    exact ⟨rules, hresolve, (hcheck hresolve).2 hnone⟩

namespace Compilable

variable {definitions : List Definition}

/-- The names of all tokens and rules are distinct, those that need no definition included. -/
theorem distinct (h : Compilable definitions) :
    Distinct (builtinNames ++ tokenNames definitions)
      ((plainRules definitions).map Prod.fst) where
  nodup_tokens := by
    refine List.nodup_append.2 ⟨by decide, h.nodup_tokens, fun name hname other hother heq => ?_⟩
    exact h.token_not_builtin other hother (heq ▸ hname)
  nodup_rules := h.nodup_rules
  not_mem_tokens name hname hmem := by
    obtain ⟨hbuiltin, htoken⟩ := h.rule_not_token name hname
    exact (List.mem_append.1 hmem).elim hbuiltin htoken

theorem readable (h : Compilable definitions) :
    ∀ definition ∈ definitions, Readable definition := by
  intro definition hmem
  unfold Readable
  split
  · rename_i pattern hbody
    exact ⟨h.directive_name definition hmem pattern hbody,
      h.pattern_readable definition hmem pattern (Or.inl hbody)⟩
  · rename_i pattern hbody
    exact h.pattern_readable definition hmem pattern (Or.inr hbody)
  · trivial

/-- What is asked of definitions, put together from what the passes find out. -/
theorem of_passes (hreadable : ∀ definition ∈ definitions, Readable definition)
    (hdistinct : Distinct (builtinNames ++ tokenNames definitions)
      ((plainRules definitions).map Prod.fst))
    (hrule : plainRules definitions ≠ [])
    (hcall : ∀ rule ∈ plainRules definitions, ∀ name, rule.2.Part (.call name) →
      name ∈ builtinNames ++ tokenNames definitions ∨
        name ∈ (plainRules definitions).map Prod.fst)
    (hnone : ∀ name, ¬ LeftRecursive (plainRules definitions) name) : Compilable definitions where
  directive_name definition hmem pattern hbody := by
    have h := hreadable definition hmem
    rw [Readable, hbody] at h
    exact h.1
  pattern_readable definition hmem pattern hbody := by
    have h := hreadable definition hmem
    rcases hbody with hbody | hbody
    · rw [Readable, hbody] at h
      exact h.2
    · rw [Readable, hbody] at h
      exact h
  nodup_tokens := (List.nodup_append.1 hdistinct.nodup_tokens).2.1
  token_not_builtin name hname hbuiltin :=
    (List.nodup_append.1 hdistinct.nodup_tokens).2.2 name hbuiltin name hname rfl
  nodup_rules := hdistinct.nodup_rules
  rule_not_token name hname := by
    have hnot := hdistinct.not_mem_tokens name hname
    rwa [List.mem_append, not_or] at hnot
  exists_rule := hrule
  call_defined rule hmem name hname := by
    have h := hcall rule hmem name hname
    rwa [List.mem_append, or_assoc] at h
  not_leftRecursive := hnone

end Compilable

/-- Definitions can be compiled exactly if they are what is asked for. -/
theorem exists_ofDefinitions_iff {definitions : List Definition} :
    (∃ grammar, ofDefinitions definitions = .ok grammar) ↔ Compilable definitions := by
  simp only [ofDefinitions_eq_ok_iff]
  -- What has been collected has the names of the definitions and of what needs none.
  have hnames {collected : Collected} (h : Collected.start.Collects definitions collected) :
      collected.tokenNames = builtinNames ++ tokenNames definitions ∧
        collected.plainRules = plainRules definitions := ⟨h.tokenNames_eq, h.plainRules_eq⟩
  constructor
  · rintro ⟨grammar, collected, hcollected, hrules, htokens, rules, hresolve, hcheck, -⟩
    have hpass : ∃ rules, collected.resolveRules 0 collected.rules = .ok rules ∧
        checkLeftRecursion collected.rules rules = .ok () := ⟨rules, hresolve, hcheck⟩
    have hcollects := Collected.collects_of_foldlM_add hcollected
    -- Collecting keeps tokens apart and rules apart; the check afterwards tells one from the other.
    have hdistinct : Distinct collected.tokenNames collected.ruleNames :=
      ⟨hcollects.nodup_tokens (by decide), hcollects.nodup_rules (by decide), htokens⟩
    rw [Collected.exists_resolveRules_iff hdistinct] at hpass
    simp only [Collected.ruleNames, hnames hcollects] at hdistinct hpass hrules
    exact .of_passes hcollects.readable hdistinct hrules hpass.1 hpass.2
  · intro h
    have hstart : Distinct (Collected.start.tokenNames ++ tokenNames definitions)
        (Collected.start.ruleNames ++ (plainRules definitions).map Prod.fst) := h.distinct
    obtain ⟨collected, hcollected⟩ := Collected.exists_foldlM_add h.readable hstart
    have hcollects := Collected.collects_of_foldlM_add hcollected
    have hdistinct : Distinct collected.tokenNames collected.ruleNames := by
      rw [Collected.ruleNames, (hnames hcollects).1, (hnames hcollects).2]
      exact h.distinct
    have hrules : collected.plainRules ≠ [] := by
      rw [(hnames hcollects).2]
      exact h.exists_rule
    obtain ⟨rules, hresolve, hcheck⟩ := (Collected.exists_resolveRules_iff hdistinct).2 (by
      simp only [Collected.ruleNames, hnames hcollects, List.mem_append, or_assoc]
      exact ⟨h.call_defined, h.not_leftRecursive⟩)
    exact ⟨_, collected, hcollected, hrules, hdistinct.not_mem_tokens, rules, hresolve, hcheck, rfl⟩

/-- A description that can be read can be compiled exactly if its definitions are what is asked
for: names are distinct, patterns and references are good, and no rule is left-recursive. -/
theorem exists_compile_iff {description : Text} {definitions : List Definition}
    (h : Description.read description = .ok definitions) :
    (∃ grammar, compile description = .ok grammar) ↔ Compilable definitions := by
  have hcompile : compile description = ofDefinitions definitions := by
    rw [compile, h]
    rfl
  rw [hcompile]
  exact exists_ofDefinitions_iff

/-- Rules ahead of the rule and the token that they refer to. -/
def laterNames : Text := "s = \x7b t \x7d; t = T INT; T = /a/;".toList

/-- A rule ahead of the token that has its name. -/
def laterClash : Text := "s = T; T = INT; T = /a/;".toList

/-- What is referred to may be defined later, but a later token may not have the name of a rule. -/
theorem exists_compile_iff_laterNames :
    (∃ definitions, Description.read laterNames = .ok definitions ∧ Compilable definitions) ∧
      ∃ definitions, Description.read laterClash = .ok definitions ∧ ¬ Compilable definitions := by
  have hgood : ((Description.read laterNames).toOption.isSome &&
      (compile laterNames).toOption.isSome) = true := by
    decide +kernel
  have hbad : ((Description.read laterClash).toOption.isSome &&
      (compile laterClash).toOption.isNone) = true := by
    decide +kernel
  rw [Bool.and_eq_true] at hgood hbad
  constructor
  · obtain ⟨definitions, hread⟩ := Option.isSome_iff_exists.1 hgood.1
    obtain ⟨grammar, hgrammar⟩ := Option.isSome_iff_exists.1 hgood.2
    have hread := Except.toOption_eq_some.1 hread
    exact ⟨definitions, hread,
      (exists_compile_iff hread).1 ⟨grammar, Except.toOption_eq_some.1 hgrammar⟩⟩
  · obtain ⟨definitions, hread⟩ := Option.isSome_iff_exists.1 hbad.1
    have hread := Except.toOption_eq_some.1 hread
    refine ⟨definitions, hread, fun hcompilable => ?_⟩
    obtain ⟨grammar, hgrammar⟩ := (exists_compile_iff hread).2 hcompilable
    rw [Except.toOption_eq_some.2 hgrammar] at hbad
    cases hbad.2

end Grammar

end Retrace
