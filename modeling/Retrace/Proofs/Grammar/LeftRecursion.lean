import Retrace.Grammar.Compile
import Retrace.Proofs.Grammar.Expr
import Mathlib.Logic.Relation

/-!
# Left recursion is found

Which expressions can match without reading anything is the least property that the rules allow
(`LeftRecursion.Nullable`), and a rule calls another one on the left if it can do so behind such
expressions (`LeftRecursion.CallsLeft`). The verdict that is reached in rounds is this least
property, the search along calls finds all rules that are reached, and so the check refuses exactly
the rules that reach themselves (`checkLeftRecursion_eq_error_iff`).

## Main definitions

* `LeftRecursion.Nullable`: an expression can match without reading anything;
* `LeftRecursion.Leads`, `LeftRecursion.CallsLeft`: calls before anything has been read.
-/

namespace Retrace

namespace LeftRecursion

/-- An expression can match without reading anything, where `bodies` are what the rules stand for;
the least property with these closure conditions. -/
inductive Nullable (bodies : List Production) : Production → Prop
  | literal : Nullable bodies (.literal [])
  | rule {index : Nat} {body : Production} : bodies[index]? = some body → Nullable bodies body →
      Nullable bodies (.call (.rule index))
  | seq {items : List Production} : (∀ item ∈ items, Nullable bodies item) →
      Nullable bodies (.seq items)
  | either {branches : List Production} {branch : Production} : branch ∈ branches →
      Nullable bodies branch → Nullable bodies (.either branches)
  | optional (body : Production) : Nullable bodies (.optional body)
  | loop (label : Nat) (body : Production) : Nullable bodies (.loop label body)

/-- An expression may call a rule before any item that reads something. -/
inductive Leads (bodies : List Production) : Production → Nat → Prop
  | rule (index : Nat) : Leads bodies (.call (.rule index)) index
  | seq {front back : List Production} {item : Production} {index : Nat} :
      (∀ ahead ∈ front, Nullable bodies ahead) → Leads bodies item index →
      Leads bodies (.seq (front ++ item :: back)) index
  | either {branches : List Production} {branch : Production} {index : Nat} : branch ∈ branches →
      Leads bodies branch index → Leads bodies (.either branches) index
  | optional {body : Production} {index : Nat} : Leads bodies body index →
      Leads bodies (.optional body) index
  | loop {label : Nat} {body : Production} {index : Nat} : Leads bodies body index →
      Leads bodies (.loop label body) index

/-- A rule may call another one before any item that reads something. -/
def CallsLeft (bodies : List Production) (caller callee : Nat) : Prop :=
  ∃ body, bodies[caller]? = some body ∧ Leads bodies body callee

variable {bodies : List Production}

/-- Only rules that exist call others. -/
theorem CallsLeft.lt_length {caller callee : Nat} (h : CallsLeft bodies caller callee) :
    caller < bodies.length := by
  obtain ⟨body, hbody, -⟩ := h
  exact (List.getElem?_eq_some_iff.1 hbody).1

/-! ## Nullability -/

/-- A verdict says of a rule that it is nullable. -/
def Accepts (verdict : Array Bool) (index : Nat) : Prop :=
  verdict.getD index false = true

/-- What a verdict that is right about the rules says about an expression is right. -/
theorem nullable_of_isNullable {nullable : Nat → Bool}
    (hrules : ∀ index, nullable index = true → Nullable bodies (.call (.rule index)))
    {expr : Production} (h : expr.isNullable nullable = true) : Nullable bodies expr := by
  -- Induction on the expression, since the verdict is computed along it.
  induction expr using Expr.ind with
  | literal text =>
    rw [Expr.isNullable, List.isEmpty_iff] at h
    subst h
    exact .literal
  | call target =>
    cases target with
    | token index => cases h
    | rule index => exact hrules index h
  | seq items ih =>
    rw [Expr.isNullable, Expr.allNullable_eq, List.all_eq_true] at h
    exact .seq fun item hitem => ih item hitem (h item hitem)
  | either branches ih =>
    rw [Expr.isNullable, Expr.someNullable_eq, List.any_eq_true] at h
    obtain ⟨branch, hbranch, h⟩ := h
    exact .either hbranch (ih branch hbranch h)
  | optional body => exact .optional body
  | loop label body => exact .loop label body

/-- A verdict that confirms itself about the rules misses no expression. -/
theorem isNullable_of_nullable {nullable : Nat → Bool}
    (hrules : ∀ index body, bodies[index]? = some body → body.isNullable nullable = true →
      nullable index = true) {expr : Production} (h : Nullable bodies expr) :
    expr.isNullable nullable = true := by
  -- Induction on the evidence, since a rule leads to its body, which is no part of the call.
  induction h with
  | literal => rfl
  | rule hbody _ ih => exact hrules _ _ hbody ih
  | seq _ ih =>
    rw [Expr.isNullable, Expr.allNullable_eq, List.all_eq_true]
    exact ih
  | either hbranch _ ih =>
    rw [Expr.isNullable, Expr.someNullable_eq, List.any_eq_true]
    exact ⟨_, hbranch, ih⟩
  | optional body => rfl
  | loop label body => rfl

/-- The more rules are taken to be nullable, the more expressions are. -/
theorem isNullable_mono {nullable wider : Nat → Bool}
    (hrules : ∀ index, nullable index = true → wider index = true) {expr : Production}
    (h : expr.isNullable nullable = true) : expr.isNullable wider = true := by
  induction expr using Expr.ind with
  | literal text => exact h
  | call target =>
    cases target with
    | token index => cases h
    | rule index => exact hrules index h
  | seq items ih =>
    rw [Expr.isNullable, Expr.allNullable_eq, List.all_eq_true] at h ⊢
    exact fun item hitem => ih item hitem (h item hitem)
  | either branches ih =>
    rw [Expr.isNullable, Expr.someNullable_eq, List.any_eq_true] at h ⊢
    obtain ⟨branch, hbranch, h⟩ := h
    exact ⟨branch, hbranch, ih branch hbranch h⟩
  | optional body => rfl
  | loop label body => rfl

theorem size_nullableStep (verdict : Array Bool) :
    (nullableStep bodies verdict).size = bodies.length := by
  simp [nullableStep]

/-- A step accepts the rules whose bodies are nullable by the verdict so far. -/
theorem accepts_nullableStep {verdict : Array Bool} {index : Nat} :
    Accepts (nullableStep bodies verdict) index ↔
      ∃ body, bodies[index]? = some body ∧
        body.isNullable (fun index => verdict.getD index false) = true := by
  simp only [Accepts, nullableStep, Array.getD_eq_getD_getElem?, List.getElem?_toArray,
    List.getElem?_map]
  cases bodies[index]? <;> simp

theorem accepts_nullableStep_mono {verdict wider : Array Bool}
    (h : ∀ index, Accepts verdict index → Accepts wider index) {index : Nat}
    (hindex : Accepts (nullableStep bodies verdict) index) :
    Accepts (nullableStep bodies wider) index := by
  obtain ⟨body, hbody, hnullable⟩ := accepts_nullableStep.1 hindex
  exact accepts_nullableStep.2 ⟨body, hbody, isNullable_mono h hnullable⟩

/-- Verdicts of the same size that accept the same rules are the same. -/
theorem eq_of_accepts_iff {verdict other : Array Bool} (hsize : verdict.size = other.size)
    (h : ∀ index, Accepts verdict index ↔ Accepts other index) : verdict = other := by
  refine Array.ext hsize fun index hlt hlt' => ?_
  have hindex := h index
  simp only [Accepts, Array.getD_eq_getD_getElem?, Array.getElem?_eq_getElem hlt,
    Array.getElem?_eq_getElem hlt', Option.getD_some] at hindex
  exact Bool.eq_iff_iff.2 hindex

/-- The rules that a verdict accepts. -/
def accepted (verdict : Array Bool) : List Nat :=
  (List.range verdict.size).filter fun index => verdict.getD index false

/-- A verdict that accepts what another one does, and no more rules than that, is the same. -/
theorem eq_of_length_accepted_le {verdict wider : Array Bool} (hsize : verdict.size = wider.size)
    (h : ∀ index, Accepts verdict index → Accepts wider index)
    (hlength : (accepted wider).length ≤ (accepted verdict).length) : wider = verdict := by
  -- What the smaller verdict accepts is a sublist of what the wider one does, of the same length.
  have hfilter : accepted verdict =
      (accepted wider).filter fun index => verdict.getD index false := by
    rw [accepted, accepted, List.filter_filter, hsize]
    refine List.filter_congr fun index _ => ?_
    cases hindex : verdict.getD index false with
    | true => rw [h index hindex, Bool.and_self]
    | false => rw [Bool.false_and]
  have hsublist : (accepted verdict).Sublist (accepted wider) :=
    hfilter ▸ List.filter_sublist
  have hsame := hsublist.eq_of_length_le hlength
  refine eq_of_accepts_iff hsize.symm fun index => ⟨fun hindex => ?_, h index⟩
  have hlt : index < wider.size := by
    apply Nat.lt_of_not_le
    intro hle
    simp [Accepts, Array.getD_eq_getD_getElem?, Array.getElem?_eq_none hle] at hindex
  have hmem : index ∈ accepted wider := List.mem_filter.2 ⟨List.mem_range.2 hlt, hindex⟩
  rw [← hsame] at hmem
  exact (List.mem_filter.1 hmem).2

/-- Enough rounds lead to a verdict that confirms itself. -/
theorem nullableStep_nullableFrom {rounds : Nat} {verdict : Array Bool}
    (hsize : verdict.size = bodies.length)
    (hgrows : ∀ index, Accepts verdict index → Accepts (nullableStep bodies verdict) index)
    (hrounds : bodies.length ≤ rounds + (accepted verdict).length) :
    nullableStep bodies (nullableFrom bodies rounds verdict) =
      nullableFrom bodies rounds verdict := by
  have hstep : (nullableStep bodies verdict).size = verdict.size := by
    rw [size_nullableStep, hsize]
  induction rounds generalizing verdict with
  | zero =>
    -- All rules are accepted already.
    have hle : (accepted (nullableStep bodies verdict)).length ≤ bodies.length := by
      refine Nat.le_trans (List.length_filter_le ..) (Nat.le_of_eq ?_)
      rw [List.length_range, size_nullableStep]
    have hsame : nullableStep bodies verdict = verdict :=
      eq_of_length_accepted_le hstep.symm hgrows (by omega)
    exact hsame
  | succ rounds ih =>
    rw [nullableFrom]
    split
    · rename_i hfixed
      exact hfixed
    · rename_i hnew
      refine ih (size_nullableStep verdict)
        (fun index hindex => accepts_nullableStep_mono hgrows hindex) ?_
        (by simp only [size_nullableStep])
      -- A verdict that changes accepts at least one more rule, so a round less is enough.
      have hmore : ¬ (accepted (nullableStep bodies verdict)).length ≤ (accepted verdict).length :=
        fun hle => hnew (eq_of_length_accepted_le hstep.symm hgrows hle)
      omega

/-- The rounds accept only nullable rules. -/
theorem nullable_of_accepts_nullableFrom {rounds : Nat} {verdict : Array Bool}
    (h : ∀ index, Accepts verdict index → Nullable bodies (.call (.rule index))) {index : Nat}
    (hindex : Accepts (nullableFrom bodies rounds verdict) index) :
    Nullable bodies (.call (.rule index)) := by
  induction rounds generalizing verdict with
  | zero => exact h index hindex
  | succ rounds ih =>
    rw [nullableFrom] at hindex
    split at hindex
    · exact h index hindex
    · refine ih (fun other hother => ?_) hindex
      -- Each round accepts rules by what the round before, which is right, says of their bodies.
      obtain ⟨body, hbody, hnullable⟩ := accepts_nullableStep.1 hother
      exact .rule hbody (nullable_of_isNullable h hnullable)

/-- Nothing is accepted at first. -/
theorem not_accepts_start (index : Nat) : ¬ Accepts (bodies.map fun _ => false).toArray index := by
  simp only [Accepts, Array.getD_eq_getD_getElem?, List.getElem?_toArray, List.getElem?_map]
  cases bodies[index]? <;> simp

/-- The verdict on the rules, used to judge expressions. -/
def isNullableRule (bodies : List Production) (index : Nat) : Bool :=
  (nullable bodies).getD index false

/-- An expression is judged to be nullable exactly if it is. -/
theorem isNullable_iff {expr : Production} :
    expr.isNullable (isNullableRule bodies) = true ↔ Nullable bodies expr := by
  constructor
  · refine nullable_of_isNullable fun index hindex => ?_
    exact nullable_of_accepts_nullableFrom (fun other h => absurd h (not_accepts_start other))
      hindex
  · refine isNullable_of_nullable fun index body hbody hnullable => ?_
    -- As many rounds as there are rules are enough for the verdict to confirm itself.
    have hfixed : nullableStep bodies (nullable bodies) = nullable bodies := by
      refine nullableStep_nullableFrom (by simp) (fun other h => ?_) (Nat.le_add_right ..)
      exact absurd h (not_accepts_start other)
    have hindex : Accepts (nullableStep bodies (nullable bodies)) index :=
      accepts_nullableStep.2 ⟨body, hbody, hnullable⟩
    rw [hfixed] at hindex
    exact hindex

/-! ## Calls on the left -/

/-- The calls that are listed for an expression are those it may make on the left. -/
theorem mem_leftCalls_iff {expr : Production} {index : Nat} :
    index ∈ expr.leftCalls (isNullableRule bodies) ↔ Leads bodies expr index := by
  -- The list is made along the expression, and being on the left is shown by evidence, so each
  -- direction has an induction of its own.
  constructor
  · intro h
    induction expr using Expr.ind with
    | literal => cases h
    | call target =>
      cases target with
      | token => cases h
      | rule other =>
        obtain rfl := List.mem_singleton.1 h
        exact .rule index
    | seq items ih =>
      obtain ⟨front, item, back, rfl, hfront, hitem⟩ := Expr.mem_leftCallsSeq.1 h
      exact .seq (fun ahead hmem => isNullable_iff.1 (hfront ahead hmem))
        (ih item (by simp) hitem)
    | either branches ih =>
      rw [Expr.leftCalls, Expr.leftCallsEither_eq] at h
      obtain ⟨branch, hbranch, h⟩ := List.mem_flatMap.1 h
      exact .either hbranch (ih branch hbranch h)
    | optional body ih => exact .optional (ih h)
    | loop label body ih => exact .loop (ih h)
  · intro h
    induction h with
    | rule index => exact List.mem_singleton.2 rfl
    | seq hfront _ ih =>
      exact Expr.mem_leftCallsSeq.2
        ⟨_, _, _, rfl, fun ahead hmem => isNullable_iff.2 (hfront ahead hmem), ih⟩
    | either hbranch _ ih =>
      rw [Expr.leftCalls, Expr.leftCallsEither_eq]
      exact List.mem_flatMap.2 ⟨_, hbranch, ih⟩
    | optional _ ih => exact ih
    | loop _ ih => exact ih

/-- A call on the left stands in the expression. -/
theorem Leads.part {expr : Production} {index : Nat} (h : Leads bodies expr index) :
    expr.Part (.call (.rule index)) := by
  induction h with
  | rule => exact .self
  | @seq front back item _ _ _ ih =>
    have hmem : item ∈ front ++ item :: back := by simp
    exact (Expr.Part.self.item hmem).trans ih
  | either hbranch _ ih => exact (Expr.Part.self.branch hbranch).trans ih
  | optional _ ih => exact Expr.Part.self.optional.trans ih
  | loop _ ih => exact Expr.Part.self.loop.trans ih

theorem mem_leftCalls {caller callee : Nat} :
    callee ∈ (leftCalls bodies).getD caller [] ↔ CallsLeft bodies caller callee := by
  have hcalls : (leftCalls bodies).getD caller [] =
      (bodies[caller]?.map fun body => body.leftCalls (isNullableRule bodies)).getD [] := by
    rw [leftCalls, Array.getD_eq_getD_getElem?, List.getElem?_toArray, List.getElem?_map]
    rfl
  rw [hcalls, CallsLeft]
  cases bodies[caller]? with
  | none => simp
  | some body =>
    simp only [Option.map_some, Option.getD_some, Option.some.injEq, exists_eq_left']
    exact mem_leftCalls_iff

/-! ## The search along calls -/

/-- The number of calls of the rules that have not been reached. -/
def pending : (calls : List (List Nat)) → (reached : List Bool) → Nat
  | callees :: calls, mark :: reached =>
    (if mark then 0 else callees.length) + pending calls reached
  | _, _ => 0

/-- Marking a rule takes its calls away from those that are pending. -/
theorem pending_set {calls : List (List Nat)} {reached : List Bool} {index : Nat}
    {callees : List Nat} (hcalls : calls[index]? = some callees)
    (hreached : reached[index]? = some false) :
    callees.length + pending calls (reached.set index true) = pending calls reached := by
  induction calls generalizing reached index with
  | nil => cases hcalls
  | cons first calls ih =>
    cases reached with
    | nil => cases hreached
    | cons mark reached =>
      cases index with
      | zero =>
        obtain rfl := Option.some.inj hcalls
        obtain rfl := Option.some.inj hreached
        simp [pending]
      | succ index =>
        rw [List.set_cons_succ, pending, pending, ← ih hcalls hreached]
        omega

/-- At first all calls are pending. -/
theorem pending_start (calls : List (List Nat)) (total : Nat) :
    total + pending calls (calls.map fun _ => false) =
      calls.foldl (fun total callees => total + callees.length) total := by
  induction calls generalizing total with
  | nil => rfl
  | cons callees calls ih =>
    rw [List.foldl_cons, ← ih, List.map_cons, pending]
    simp only [Bool.false_eq_true, if_false]
    omega

variable {calls : Array (List Nat)}

/-- The search only finds what the waiting rules lead to: whatever holds of these and is handed on
by calls holds of all rules found. -/
theorem reach_sound {motive : Nat → Prop}
    (hstep : ∀ {caller callee}, motive caller → callee ∈ calls.getD caller [] → motive callee)
    {fuel : Nat} {waiting : List Nat} {reached : Array Bool}
    (hwaiting : ∀ index ∈ waiting, motive index)
    (hreached : ∀ index, Accepts reached index → motive index) {index : Nat}
    (h : Accepts (reach calls fuel waiting reached) index) : motive index := by
  induction fuel generalizing waiting reached with
  | zero => exact hreached index h
  | succ fuel ih =>
    cases waiting with
    | nil => exact hreached index h
    | cons first waiting =>
      have hlater : ∀ index ∈ waiting, motive index :=
        fun index hmem => hwaiting index (List.mem_cons_of_mem _ hmem)
      have hfirst := hwaiting first List.mem_cons_self
      rw [reach] at h
      split at h
      · exact ih hlater hreached h
      · -- The rule that is visited hands the property on to its calls, which wait now.
        refine ih (fun other hother => ?_) (fun other hother => ?_) h
        · rcases List.mem_append.1 hother with hother | hother
          · exact hstep hfirst hother
          · exact hlater other hother
        · simp only [Accepts, Array.getD_eq_getD_getElem?, Array.getElem?_setIfInBounds] at hother
          by_cases heq : first = other
          · exact heq ▸ hfirst
          · rw [if_neg heq, ← Array.getD_eq_getD_getElem?] at hother
            exact hreached other hother

/-- A rule needs no visit: it has been reached, or there is no such rule. -/
def Settled (reached : Array Bool) (index : Nat) : Prop :=
  reached.getD index true = true

theorem settled_setIfInBounds {reached : Array Bool} {index other : Nat} :
    Settled (reached.setIfInBounds index true) other ↔ index = other ∨ Settled reached other := by
  simp only [Settled, Array.getD_eq_getD_getElem?, Array.getElem?_setIfInBounds]
  by_cases heq : index = other
  · subst heq
    by_cases hlt : index < reached.size <;> simp [hlt]
  · simp [heq]

theorem size_reach {fuel : Nat} {waiting : List Nat} {reached : Array Bool} :
    (reach calls fuel waiting reached).size = reached.size := by
  induction fuel generalizing waiting reached with
  | zero => rfl
  | succ fuel ih =>
    cases waiting with
    | nil => rfl
    | cons first waiting =>
      rw [reach]
      split
      · exact ih
      · rw [ih, Array.size_setIfInBounds]

/-- The calls of settled rules are settled, or they wait. -/
def Closed (calls : Array (List Nat)) (waiting : List Nat) (reached : Array Bool) : Prop :=
  ∀ caller, Settled reached caller → ∀ callee ∈ calls.getD caller [],
    Settled reached callee ∨ callee ∈ waiting

/-- A settled rule need not wait. -/
theorem Closed.skip {first : Nat} {waiting : List Nat} {reached : Array Bool}
    (h : Closed calls (first :: waiting) reached) (hfirst : Settled reached first) :
    Closed calls waiting reached := by
  intro caller hcaller callee hcallee
  rcases h caller hcaller callee hcallee with hsettled | hmem
  · exact Or.inl hsettled
  · rcases List.mem_cons.1 hmem with rfl | hmem
    · exact Or.inl hfirst
    · exact Or.inr hmem

/-- When a rule is visited, its calls wait in its place. -/
theorem Closed.visit {first : Nat} {waiting : List Nat} {reached : Array Bool}
    (h : Closed calls (first :: waiting) reached) :
    Closed calls (calls.getD first [] ++ waiting) (reached.setIfInBounds first true) := by
  intro caller hcaller callee hcallee
  rcases settled_setIfInBounds.1 hcaller with rfl | hcaller
  · exact Or.inr (List.mem_append_left _ hcallee)
  · rcases h caller hcaller callee hcallee with hsettled | hmem
    · exact Or.inl (settled_setIfInBounds.2 (Or.inr hsettled))
    · rcases List.mem_cons.1 hmem with rfl | hmem
      · exact Or.inl (settled_setIfInBounds.2 (Or.inl rfl))
      · exact Or.inr (List.mem_append_right _ hmem)

/-- The calls of a rule that is visited are no longer pending. -/
theorem pending_visit {first : Nat} {reached : Array Bool} (hsize : reached.size = calls.size)
    (hfirst : ¬ Settled reached first) :
    (calls.getD first []).length +
        pending calls.toList (reached.setIfInBounds first true).toList =
      pending calls.toList reached.toList := by
  rw [Settled] at hfirst
  -- Outside the rules everything is settled, so the rule is one of them, not yet marked.
  have hlt : first < reached.size := by
    apply Nat.lt_of_not_le
    intro hle
    simp [Array.getD_eq_getD_getElem?, Array.getElem?_eq_none hle] at hfirst
  have hmark : reached.toList[first]? = some false := by
    rw [Array.getD_eq_getD_getElem?, Array.getElem?_eq_getElem hlt, Option.getD_some,
      Bool.not_eq_true] at hfirst
    rw [Array.getElem?_toList, Array.getElem?_eq_getElem hlt, hfirst]
  have hcalls : calls.toList[first]? = some (calls.getD first []) := by
    rw [Array.getElem?_toList, Array.getD_eq_getD_getElem?,
      Array.getElem?_eq_getElem (hsize ▸ hlt), Option.getD_some]
  rw [Array.toList_setIfInBounds]
  exact pending_set hcalls hmark

/-- With enough fuel the search ends with nothing waiting: what was waiting is settled, and so are
the calls of settled rules. -/
theorem reach_complete {fuel : Nat} {waiting : List Nat} {reached : Array Bool}
    (hsize : reached.size = calls.size)
    (hfuel : waiting.length + pending calls.toList reached.toList ≤ fuel)
    (hclosed : Closed calls waiting reached) :
    (∀ index ∈ waiting, Settled (reach calls fuel waiting reached) index) ∧
      (∀ index, Settled reached index → Settled (reach calls fuel waiting reached) index) ∧
      Closed calls [] (reach calls fuel waiting reached) := by
  -- Every visit uses up one unit of fuel and one rule that waits; the calls that it adds to those
  -- waiting are taken away from those pending.
  induction fuel generalizing waiting reached with
  | zero =>
    obtain rfl : waiting = [] := List.length_eq_zero_iff.1 (by omega)
    exact ⟨fun _ hmem => (List.not_mem_nil hmem).elim, fun _ h => h, hclosed⟩
  | succ fuel ih =>
    cases waiting with
    | nil => exact ⟨fun _ hmem => (List.not_mem_nil hmem).elim, fun _ h => h, hclosed⟩
    | cons first waiting =>
      rw [List.length_cons] at hfuel
      rw [reach]
      split
      · rename_i hfirst
        obtain ⟨hwaiting, hreached, hresult⟩ :=
          ih hsize (by omega) (hclosed.skip hfirst)
        refine ⟨fun index hmem => ?_, hreached, hresult⟩
        rcases List.mem_cons.1 hmem with rfl | hmem
        · exact hreached index hfirst
        · exact hwaiting index hmem
      · rename_i hfirst
        have hpending := pending_visit hsize hfirst
        have hfuel' : (calls.getD first [] ++ waiting).length +
            pending calls.toList (reached.setIfInBounds first true).toList ≤ fuel := by
          rw [List.length_append]
          omega
        obtain ⟨hwaiting, hreached, hresult⟩ :=
          ih (by rw [Array.size_setIfInBounds, hsize]) hfuel' hclosed.visit
        refine ⟨fun index hmem => ?_, fun index h => ?_, hresult⟩
        · rcases List.mem_cons.1 hmem with rfl | hmem
          · exact hreached index (settled_setIfInBounds.2 (Or.inl rfl))
          · exact hwaiting index (List.mem_append_right _ hmem)
        · exact hreached index (settled_setIfInBounds.2 (Or.inr h))

/-- When nothing waits, all rules along a chain of calls are settled if the first ones are. -/
theorem Closed.settled_of_transGen {reached : Array Bool} (h : Closed calls [] reached)
    {index callee : Nat} (hfirst : ∀ callee ∈ calls.getD index [], Settled reached callee)
    (hchain : Relation.TransGen (fun caller callee => callee ∈ calls.getD caller []) index callee) :
    Settled reached callee := by
  induction hchain with
  | single hcallee => exact hfirst _ hcallee
  | tail _ hcallee ih => exact (h _ ih _ hcallee).resolve_right List.not_mem_nil

/-- A rule is found to reach itself exactly if a chain of calls leads from it back to it. -/
theorem isLeftRecursive_iff {index : Nat} (hlt : index < calls.size) :
    isLeftRecursive calls index = true ↔
      Relation.TransGen (fun caller callee => callee ∈ calls.getD caller []) index index := by
  rw [isLeftRecursive, reachedFrom]
  constructor
  · refine reach_sound (fun hcaller hcallee => hcaller.tail hcallee)
      (fun callee hcallee => .single hcallee) fun callee h => ?_
    simp only [Accepts, Array.getD_eq_getD_getElem?, Array.getElem?_map] at h
    cases hcallee : calls[callee]? <;> simp [hcallee] at h
  · intro h
    -- The fuel counts the calls from the start once and all calls of all rules once more.
    have hfuel : (calls.getD index []).length +
        pending calls.toList (calls.map fun _ => false).toList ≤
          calls.foldl (fun total others => total + others.length) (calls.getD index []).length := by
      refine Nat.le_of_eq ?_
      rw [Array.toList_map, pending_start, Array.foldl_toList]
    -- At first only rules that do not exist need no visit.
    have hclosed : Closed calls (calls.getD index []) (calls.map fun _ => false) := by
      intro caller hcaller callee hcallee
      simp only [Settled, Array.getD_eq_getD_getElem?, Array.getElem?_map] at hcaller hcallee
      cases hcalls : calls[caller]? <;> simp [hcalls] at hcaller hcallee
    obtain ⟨hwaiting, -, hresult⟩ := reach_complete (Array.size_map ..) hfuel hclosed
    -- For a rule that exists, to be settled is to be reached.
    have hindex : Settled (reachedFrom calls index) index := hresult.settled_of_transGen hwaiting h
    have hsize : index < (reachedFrom calls index).size := by
      rw [reachedFrom, size_reach, Array.size_map]
      exact hlt
    rw [Settled, Array.getD_eq_getD_getElem?, Array.getElem?_eq_getElem hsize] at hindex
    rw [← reachedFrom, Array.getD_eq_getD_getElem?, Array.getElem?_eq_getElem hsize]
    exact hindex

/-! ## The check -/

theorem size_leftCalls (bodies : List Production) : (leftCalls bodies).size = bodies.length := by
  simp [leftCalls]

/-- A rule reaches itself by calls on the left. -/
def IsLeftRecursive (bodies : List Production) (index : Nat) : Prop :=
  Relation.TransGen (CallsLeft bodies) index index

/-- Left-recursive rules exist. -/
theorem IsLeftRecursive.lt {index : Nat} (h : IsLeftRecursive bodies index) :
    index < bodies.length := by
  -- Every chain begins with a call of the rule itself.
  obtain ⟨callee, hcall, -⟩ := Relation.TransGen.head'_iff.1 h
  exact hcall.lt_length

/-- A left-recursive rule is recognised. -/
theorem isLeftRecursive_leftCalls_iff {index : Nat} (hlt : index < bodies.length) :
    isLeftRecursive (leftCalls bodies) index = true ↔ IsLeftRecursive bodies index := by
  rw [isLeftRecursive_iff (by rw [size_leftCalls]; exact hlt)]
  simp only [mem_leftCalls]
  rfl

/-- The first left-recursive rule is found. -/
theorem first?_eq_some_iff {index : Nat} :
    first? bodies = some index ↔ IsLeftRecursive bodies index ∧
      ∀ earlier < index, ¬ IsLeftRecursive bodies earlier := by
  rw [first?, List.find?_range_eq_some, List.mem_range]
  constructor
  · rintro ⟨hindex, hlt, hearlier⟩
    refine ⟨(isLeftRecursive_leftCalls_iff hlt).1 hindex, fun earlier hless hrecursive => ?_⟩
    have hfound := (isLeftRecursive_leftCalls_iff hrecursive.lt).2 hrecursive
    have hnot := hearlier earlier hless
    rw [hfound] at hnot
    cases hnot
  · rintro ⟨hindex, hearlier⟩
    refine ⟨(isLeftRecursive_leftCalls_iff hindex.lt).2 hindex, hindex.lt, fun earlier hless => ?_⟩
    have hlt := Nat.lt_trans hless hindex.lt
    have hnot := mt (isLeftRecursive_leftCalls_iff hlt).1 (hearlier earlier hless)
    rw [Bool.not_eq_true] at hnot
    rw [hnot]
    rfl

/-- Without a left-recursive rule none is found. -/
theorem first?_eq_none_iff :
    first? bodies = none ↔ ∀ index, ¬ IsLeftRecursive bodies index := by
  rw [first?, List.find?_eq_none]
  constructor
  · intro h index hindex
    exact h index (List.mem_range.2 hindex.lt) ((isLeftRecursive_leftCalls_iff hindex.lt).2 hindex)
  · intro h index hmem hindex
    exact h index ((isLeftRecursive_leftCalls_iff (List.mem_range.1 hmem)).1 hindex)

end LeftRecursion

namespace Grammar

open LeftRecursion

/-- What the rules of a grammar stand for. -/
def bodies (grammar : Grammar) : List Production :=
  grammar.rules.toList.map Rule.body

variable {written : List RawRule} {rules : List Rule}

/-- Rules pass the check exactly if none is left-recursive. -/
theorem checkLeftRecursion_eq_ok_iff (hlength : written.length = rules.length) :
    checkLeftRecursion written rules = .ok () ↔
      ∀ index, ¬ IsLeftRecursive (rules.map Rule.body) index := by
  rw [← first?_eq_none_iff, checkLeftRecursion]
  cases hfirst : first? (rules.map Rule.body) with
  | none => simp
  | some index =>
    have hlt := (first?_eq_some_iff.1 hfirst).1.lt
    rw [List.length_map, ← hlength] at hlt
    simp [List.getElem?_eq_getElem hlt]

/-- The check fails exactly if a rule is left-recursive, and names the first one. -/
theorem checkLeftRecursion_eq_error_iff {error : GrammarError} :
    checkLeftRecursion written rules = .error error ↔
      ∃ index rule, written[index]? = some rule ∧ error = .leftRecursive rule.name rule.span ∧
        IsLeftRecursive (rules.map Rule.body) index ∧
        ∀ earlier < index, ¬ IsLeftRecursive (rules.map Rule.body) earlier := by
  rw [checkLeftRecursion]
  constructor
  · intro h
    split at h
    · rename_i index hfirst
      split at h
      · rename_i rule hrule
        exact ⟨index, rule, hrule, (Except.error.inj h).symm, first?_eq_some_iff.1 hfirst⟩
      · cases h
    · cases h
  · rintro ⟨index, rule, hrule, rfl, hindex⟩
    rw [first?_eq_some_iff.2 hindex]
    simp only [hrule]

end Grammar

end Retrace
