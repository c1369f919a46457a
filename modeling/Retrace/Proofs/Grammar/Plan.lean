import Mathlib.Data.Fintype.EquivFin
import Retrace.Proofs.Grammar.Compile

/-!
# The plan respects needs

Without left recursion no chain of needs ever comes back (`Grammar.Compiled.acc_requires`), so in
every round of `Plan.settle` an entry is ready. The plan therefore holds every entry exactly once
(`Grammar.Compiled.mem_plan`, `nodup_keys_plan`), each behind all it needs (`ordered_plan`).

## Main definitions

* `Entry.needs`: the keys of what an entry may need at its own place;
* `Plan.Ordered`: entries that stand behind what they need.
-/

namespace Retrace

/-- The keys of what an entry may need before anything has been read. -/
def Entry.needs (rules : List Rule) (entry : Entry) : List Entry.Key :=
  entry.body.needs (LeftRecursion.isNullableRule (rules.map Rule.body))

namespace Plan

/-- An entry with one key needs another key. -/
def Requires (rules : List Rule) (needed key : Entry.Key) : Prop :=
  ∃ entry ∈ entries rules, entry.key = key ∧ needed ∈ entry.needs rules

/-- Entries in an order in which each stands behind what it needs, where what is `done` needs to
stand nowhere. -/
def Ordered (rules : List Rule) : (done : List Entry.Key) → List Entry → Prop
  | _, [] => True
  | done, entry :: others =>
    entry.needs rules ⊆ done ∧ Ordered rules (entry.key :: done) others

section Entries

variable {rules : List Rule}

/-- The entries are the rules, and the repetitions in them. -/
theorem mem_entries {entry : Entry} :
    entry ∈ entries rules ↔
      (∃ index rule, rules[index]? = some rule ∧ entry = .rule index rule.name rule.body) ∨
        ∃ label body, (label, body) ∈ Grammar.loops rules ∧ entry = .loop label body := by
  simp only [entries, Grammar.loops, List.mem_flatMap, List.mem_append, List.mem_map,
    List.mem_singleton, Prod.exists, List.mem_zipIdx_iff_getElem?]
  constructor
  · rintro ⟨rule, index, hrule, ⟨label, body, hbody, rfl⟩ | rfl⟩
    · exact Or.inr ⟨label, body, ⟨rule, List.mem_of_getElem? hrule, hbody⟩, rfl⟩
    · exact Or.inl ⟨index, rule, hrule, rfl⟩
  · rintro (⟨index, rule, hrule, rfl⟩ | ⟨label, body, ⟨rule, hrule, hbody⟩, rfl⟩)
    · exact ⟨rule, index, hrule, Or.inr rfl⟩
    · obtain ⟨index, hindex⟩ := List.getElem?_of_mem hrule
      exact ⟨rule, index, hindex, Or.inl ⟨label, body, hbody, rfl⟩⟩

/-- The repetitions in what an entry evaluates are repetitions of the rules. -/
theorem loops_subset_of_mem_entries {entry : Entry} (h : entry ∈ entries rules) :
    entry.body.loops ⊆ Grammar.loops rules := by
  intro loop hloop
  rcases mem_entries.1 h with ⟨index, rule, hrule, rfl⟩ | ⟨label, body, hbody, rfl⟩
  · exact List.mem_flatMap.2 ⟨rule, List.mem_of_getElem? hrule, hloop⟩
  · obtain ⟨rule, hrule, hmem⟩ := List.mem_flatMap.1 hbody
    exact List.mem_flatMap.2 ⟨rule, hrule, (Expr.part_of_mem_loops hmem).loop.loops_subset hloop⟩

/-- The keys of the entries for rules that are numbered from somewhere on. -/
def keysFrom : (first : Nat) → List Rule → List Entry.Key
  | _, [] => []
  | first, rule :: others =>
    (rule.body.loops.map Prod.fst).map .loop ++ .rule first :: keysFrom (first + 1) others

theorem map_key_entries (rules : List Rule) : (entries rules).map Entry.key = keysFrom 0 rules := by
  rw [entries]
  generalize 0 = first
  induction rules generalizing first with
  | nil => rfl
  | cons rule others ih =>
    rw [keysFrom, List.zipIdx_cons, List.flatMap_cons, List.map_append, ih, List.map_append,
      List.append_assoc, List.map_map, List.map_map]
    rfl

theorem of_mem_keysFrom {first : Nat} {key : Entry.Key} (h : key ∈ keysFrom first rules) :
    (∃ label ∈ (Grammar.loops rules).map Prod.fst, key = .loop label) ∨
      ∃ index, first ≤ index ∧ key = .rule index := by
  induction rules generalizing first with
  | nil => cases h
  | cons rule others ih =>
    rw [Grammar.loops, List.flatMap_cons, List.map_append]
    rcases List.mem_append.1 h with hmem | hmem
    · obtain ⟨label, hlabel, rfl⟩ := List.mem_map.1 hmem
      exact Or.inl ⟨label, List.mem_append_left _ hlabel, rfl⟩
    · rcases List.mem_cons.1 hmem with rfl | hmem
      · exact Or.inr ⟨first, Nat.le_refl _, rfl⟩
      · rcases ih hmem with ⟨label, hlabel, rfl⟩ | ⟨index, hle, rfl⟩
        · exact Or.inl ⟨label, List.mem_append_right _ hlabel, rfl⟩
        · exact Or.inr ⟨index, by omega, rfl⟩

/-- Entries have different keys if repetitions have different labels. -/
theorem nodup_keys_entries (h : ((Grammar.loops rules).map Prod.fst).Nodup) :
    ((entries rules).map Entry.key).Nodup := by
  rw [map_key_entries]
  generalize 0 = first
  induction rules generalizing first with
  | nil => exact List.nodup_nil
  | cons rule others ih =>
    rw [Grammar.loops, List.flatMap_cons, List.map_append] at h
    obtain ⟨hrule, hothers, hdisjoint⟩ := List.nodup_append.1 h
    rw [keysFrom]
    -- The keys of a rule are its labels and its index; the later ones have later indices.
    refine List.nodup_append.2 ⟨?_, List.nodup_cons.2 ⟨?_, ih hothers (first + 1)⟩, ?_⟩
    · exact hrule.map fun label label' heq => by injection heq
    · intro hmem
      rcases of_mem_keysFrom hmem with ⟨_, _, heq⟩ | ⟨index, hle, heq⟩
      · cases heq
      · cases heq
        omega
    · intro key hkey key' hkey' heq
      obtain ⟨label, hlabel, rfl⟩ := List.mem_map.1 hkey
      rcases List.mem_cons.1 hkey' with rfl | hkey'
      · cases heq
      · rcases of_mem_keysFrom hkey' with ⟨label', hlabel', rfl⟩ | ⟨index, _, rfl⟩
        · cases heq
          exact hdisjoint label hlabel label hlabel' rfl
        · cases heq

/-- Entries with the same key are the same. -/
theorem entry_eq_of_key_eq (h : ((Grammar.loops rules).map Prod.fst).Nodup) {entry other : Entry}
    (hentry : entry ∈ entries rules) (hother : other ∈ entries rules)
    (heq : entry.key = other.key) : entry = other := by
  exact List.inj_on_of_nodup_map (nodup_keys_entries h) hentry hother heq

end Entries

section Order

variable {rules : List Rule} {done : List Entry.Key}

/-- What is in order stays so when more is done. -/
theorem Ordered.mono {done' : List Entry.Key} {several : List Entry}
    (h : Ordered rules done several) (hsubset : done ⊆ done') : Ordered rules done' several := by
  induction several generalizing done done' with
  | nil => trivial
  | cons entry others ih =>
    exact ⟨List.Subset.trans h.1 hsubset, ih h.2 (List.cons_subset_cons entry.key hsubset)⟩

/-- Entries that need only what is done may come first, in any order. -/
theorem Ordered.append {ready others : List Entry}
    (hready : ∀ entry ∈ ready, entry.needs rules ⊆ done)
    (hothers : Ordered rules (ready.map Entry.key ++ done) others) :
    Ordered rules done (ready ++ others) := by
  induction ready generalizing done with
  | nil => exact hothers
  | cons entry ready ih =>
    refine ⟨hready entry List.mem_cons_self, ih (fun other hother => ?_) (hothers.mono ?_)⟩
    · exact List.Subset.trans (hready other (List.mem_cons_of_mem _ hother))
        (List.subset_cons_self ..)
    · intro key hkey
      simp only [List.map_cons, List.cons_append, List.mem_cons, List.mem_append] at hkey ⊢
      grind

/-- Entries that wait, each with what it still waits for. -/
structure Waiting (rules : List Rule) (done : List Entry.Key)
    (waiting : List (Entry × List Entry.Key)) : Prop where
  /-- Only entries of the rules wait. -/
  mem_entries : ∀ {entry unmet}, (entry, unmet) ∈ waiting → entry ∈ entries rules
  /-- Needs are met unless they are waited for. -/
  met : ∀ {entry unmet}, (entry, unmet) ∈ waiting → entry.needs rules ⊆ unmet ++ done
  /-- Only needs are waited for. -/
  needed : ∀ {entry unmet}, (entry, unmet) ∈ waiting → unmet ⊆ entry.needs rules
  /-- What is waited for waits itself. -/
  waits : ∀ {entry unmet key}, (entry, unmet) ∈ waiting → key ∈ unmet →
    ∃ other unmet', (other, unmet') ∈ waiting ∧ other.key = key

namespace Waiting

variable {waiting : List (Entry × List Entry.Key)}

/-- Going from an entry to what it waits for ends at one that is ready, if chains of its needs
end. -/
theorem exists_ready_of_acc (h : Waiting rules done waiting) {key : Entry.Key}
    (hacc : Acc (Requires rules) key) {entry : Entry} {unmet : List Entry.Key}
    (hmem : (entry, unmet) ∈ waiting) (hkey : entry.key = key) :
    ∃ entry, (entry, []) ∈ waiting := by
  induction hacc generalizing entry unmet with
  | intro key _ ih =>
    cases unmet with
    | nil => exact ⟨entry, hmem⟩
    | cons needed unmet =>
      obtain ⟨other, unmet', hother, hkey'⟩ := h.waits hmem List.mem_cons_self
      refine ih needed ⟨entry, h.mem_entries hmem, hkey, ?_⟩ hother hkey'
      exact h.needed hmem List.mem_cons_self

/-- If chains of needs end, something that waits is ready. -/
theorem exists_ready (h : Waiting rules done waiting) (hacc : ∀ key, Acc (Requires rules) key)
    (hne : waiting ≠ []) : ∃ entry, (entry, []) ∈ waiting := by
  obtain ⟨⟨entry, unmet⟩, hmem⟩ := List.exists_mem_of_ne_nil waiting hne
  exact h.exists_ready_of_acc (hacc entry.key) hmem rfl

/-- The entries that are ready. -/
def ready (waiting : List (Entry × List Entry.Key)) : List Entry :=
  (waiting.filter fun (_, unmet) => unmet.isEmpty).map Prod.fst

/-- The entries that are not ready, which no longer wait for those that are. -/
def blocked (waiting : List (Entry × List Entry.Key)) : List (Entry × List Entry.Key) :=
  (waiting.filter fun (_, unmet) => !unmet.isEmpty).map fun (entry, unmet) =>
    (entry, unmet.filter fun key => !((ready waiting).map Entry.key).contains key)

theorem settle_succ (rounds : Nat) (waiting : List (Entry × List Entry.Key)) :
    settle (rounds + 1) waiting = ready waiting ++ settle rounds (blocked waiting) := by
  rw [settle, List.partition_eq_filter_filter]
  rfl

theorem mem_ready {entry : Entry} : entry ∈ ready waiting ↔ (entry, []) ∈ waiting := by
  simp [ready]

theorem mem_blocked {entry : Entry} {unmet : List Entry.Key} :
    (entry, unmet) ∈ blocked waiting ↔ ∃ before, (entry, before) ∈ waiting ∧ before ≠ [] ∧
      unmet = before.filter fun key => !((ready waiting).map Entry.key).contains key := by
  simp only [blocked, List.mem_map, List.mem_filter, Prod.exists, Prod.mk.injEq]
  constructor
  · rintro ⟨_, before, ⟨hmem, hne⟩, rfl, rfl⟩
    exact ⟨before, hmem, by simpa using hne, rfl⟩
  · rintro ⟨before, hmem, hne, rfl⟩
    exact ⟨entry, before, ⟨hmem, by simpa using hne⟩, rfl, rfl⟩

/-- Once the entries that are ready are done, the others wait as before. -/
theorem blocked_waiting (h : Waiting rules done waiting) :
    Waiting rules ((ready waiting).map Entry.key ++ done) (blocked waiting) where
  mem_entries hmem := by
    obtain ⟨before, hbefore, -, -⟩ := mem_blocked.1 hmem
    exact h.mem_entries hbefore
  met {entry unmet} hmem key hkey := by
    obtain ⟨before, hbefore, -, rfl⟩ := mem_blocked.1 hmem
    have hmet := h.met hbefore hkey
    simp only [List.mem_append, List.mem_filter, Bool.not_eq_true'] at hmet ⊢
    grind
  needed hmem key hkey := by
    obtain ⟨before, hbefore, -, rfl⟩ := mem_blocked.1 hmem
    exact h.needed hbefore (List.mem_filter.1 hkey).1
  waits {entry unmet key} hmem hkey := by
    obtain ⟨before, hbefore, -, rfl⟩ := mem_blocked.1 hmem
    obtain ⟨hkey, hnot⟩ := List.mem_filter.1 hkey
    obtain ⟨other, unmet', hother, rfl⟩ := h.waits hbefore hkey
    refine ⟨other, _, mem_blocked.2 ⟨unmet', hother, ?_, rfl⟩, rfl⟩
    -- Otherwise it would be ready and would be waited for no longer.
    rintro rfl
    have hready : other.key ∈ (ready waiting).map Entry.key :=
      List.mem_map_of_mem (mem_ready.2 hother)
    simp [hready] at hnot

theorem perm_ready_blocked (waiting : List (Entry × List Entry.Key)) :
    (ready waiting ++ (blocked waiting).map Prod.fst).Perm (waiting.map Prod.fst) := by
  have hblocked : (blocked waiting).map Prod.fst =
      (waiting.filter fun (_, unmet) => !unmet.isEmpty).map Prod.fst := by
    rw [blocked, List.map_map]
    rfl
  rw [hblocked, ready, ← List.map_append]
  exact (List.filter_append_perm ..).map Prod.fst

/-- In as many rounds as entries wait, all of them are settled, in order. -/
theorem settle (h : Waiting rules done waiting) (hacc : ∀ key, Acc (Requires rules) key)
    {rounds : Nat} (hrounds : waiting.length ≤ rounds) :
    (Plan.settle rounds waiting).Perm (waiting.map Prod.fst) ∧
      Ordered rules done (Plan.settle rounds waiting) := by
  induction rounds generalizing waiting done with
  | zero =>
    obtain rfl := List.length_eq_zero_iff.1 (Nat.le_zero.1 hrounds)
    exact ⟨.refl _, trivial⟩
  | succ rounds ih =>
    have hperm := perm_ready_blocked waiting
    -- At least one entry is ready, so fewer wait in the next round.
    have hlength : (blocked waiting).length ≤ rounds := by
      have htotal := hperm.length_eq
      rw [List.length_append, List.length_map, List.length_map] at htotal
      by_cases hne : waiting = []
      · subst hne
        exact Nat.zero_le _
      · obtain ⟨entry, hentry⟩ := h.exists_ready hacc hne
        have hpos := List.length_pos_of_mem (mem_ready.2 hentry)
        omega
    obtain ⟨hsettled, hordered⟩ := ih h.blocked_waiting hlength
    rw [settle_succ]
    refine ⟨(hsettled.append_left _).trans hperm, .append (fun entry hentry => ?_) hordered⟩
    exact h.met (mem_ready.1 hentry)

end Waiting

end Order

end Plan

namespace Grammar.Compiled

open LeftRecursion

variable {grammar : Grammar}

/-- Calls on the left lead nowhere without end. -/
theorem acc_callsLeft (h : grammar.Compiled) (index : Nat) :
    Acc (fun callee caller => CallsLeft grammar.bodies caller callee) index := by
  -- On the finitely many rules that exist, chains of calls do not come back, so they end.
  let Below (callee caller : Fin grammar.bodies.length) : Prop :=
    Relation.TransGen (CallsLeft grammar.bodies) caller callee
  have : IsTrans _ Below := ⟨fun _ _ _ hbelow hbelow' => hbelow'.trans hbelow⟩
  have : Std.Irrefl Below := ⟨fun index => h.not_leftRecursive index⟩
  have hwf : WellFounded Below := Finite.wellFounded_of_trans_of_irrefl Below
  have hexists (caller : Fin grammar.bodies.length) :
      Acc (fun callee caller => CallsLeft grammar.bodies caller callee) caller.val := by
    induction hwf.apply caller with
    | intro caller _ ih =>
      refine ⟨_, fun callee hcall => ?_⟩
      by_cases hcallee : callee < grammar.bodies.length
      · exact ih ⟨callee, hcallee⟩ (.single hcall)
      · exact ⟨_, fun _ hcall' => absurd hcall'.lt_length hcallee⟩
  by_cases hindex : index < grammar.bodies.length
  · exact hexists ⟨index, hindex⟩
  · exact ⟨_, fun _ hcall => absurd hcall.lt_length hindex⟩

theorem getElem?_bodies {index : Nat} :
    grammar.bodies[index]? = grammar.rules[index]?.map Rule.body := by
  rw [bodies, List.getElem?_map, Array.getElem?_toList]

theorem mem_loops {rule : Rule} {label : Nat} {body : Production}
    (hrule : rule ∈ grammar.rules.toList) (hpart : rule.body.Part (.loop label body)) :
    (label, body) ∈ loops grammar.rules.toList :=
  List.mem_flatMap.2 ⟨rule, hrule, hpart.mem_loops⟩

/-- The entry of a repetition is the one with its label. -/
theorem eq_of_key_eq_loop (h : grammar.Compiled) {entry : Entry} {label : Nat} {body : Production}
    (hentry : entry ∈ Plan.entries grammar.rules.toList) (hkey : entry.key = .loop label)
    (hbody : (label, body) ∈ loops grammar.rules.toList) : entry = .loop label body :=
  Plan.entry_eq_of_key_eq h.nodup_labels hentry
    (Plan.mem_entries.2 (Or.inr ⟨label, body, hbody, rfl⟩)) hkey

/-- If chains of needs end for the rules that an expression calls on the left, they end for all it
needs before anything has been read. -/
theorem acc_of_mem_needs (h : grammar.Compiled) {rule : Rule} (hrule : rule ∈ grammar.rules.toList)
    {expr : Production} (hpart : rule.body.Part expr)
    (hcalls : ∀ index, Leads grammar.bodies expr index →
      Acc (Plan.Requires grammar.rules.toList) (.rule index)) {key : Entry.Key}
    (hkey : key ∈ expr.needs (isNullableRule grammar.bodies)) :
    Acc (Plan.Requires grammar.rules.toList) key := by
  induction expr using Expr.ind generalizing key with
  | literal => cases hkey
  | call target =>
    cases target with
    | token => cases hkey
    | rule index =>
      rw [List.mem_singleton.1 hkey]
      exact hcalls index (.rule index)
  | seq items ih =>
    rw [Expr.needs, Expr.needsSeq_eq] at hkey
    obtain ⟨item, hitem, hneeded⟩ := List.mem_flatMap.1 hkey
    obtain ⟨front, back, rfl, hfront⟩ := Expr.mem_leading.1 hitem
    have hmem : item ∈ front ++ item :: back := by simp
    -- Only items behind nullable ones are needed, and they are called on the left.
    refine ih item hmem (hpart.item hmem) (fun index hleads => hcalls index ?_) hneeded
    exact .seq (fun ahead hahead => isNullable_iff.1 (hfront ahead hahead)) hleads
  | either branches ih =>
    rw [Expr.needs, Expr.needsEither_eq] at hkey
    obtain ⟨branch, hbranch, hneeded⟩ := List.mem_flatMap.1 hkey
    exact ih branch hbranch (hpart.branch hbranch)
      (fun index hleads => hcalls index (.either hbranch hleads)) hneeded
  | optional body ih =>
    exact ih hpart.optional (fun index hleads => hcalls index (.optional hleads)) hkey
  | loop label body ih =>
    rw [List.mem_singleton.1 hkey]
    -- A repetition needs what its body needs, and the body calls what the repetition does.
    refine ⟨_, fun needed hrequires => ?_⟩
    obtain ⟨entry, hentry, hlabel, hneeded⟩ := hrequires
    obtain rfl := h.eq_of_key_eq_loop hentry hlabel (mem_loops hrule hpart)
    exact ih hpart.loop (fun index hleads => hcalls index (.loop hleads)) hneeded

/-- Chains of needs of rules end. -/
theorem acc_requires_rule (h : grammar.Compiled) (index : Nat) :
    Acc (Plan.Requires grammar.rules.toList) (.rule index) := by
  -- Induction along calls on the left, which come to an end.
  induction h.acc_callsLeft index with
  | intro index _ ih =>
    refine ⟨_, fun needed hrequires => ?_⟩
    obtain ⟨entry, hentry, hkey, hneeded⟩ := hrequires
    rcases Plan.mem_entries.1 hentry with ⟨index', rule, hindex, rfl⟩ | ⟨label, body, _, rfl⟩
    · cases hkey
      have hbody : grammar.bodies[index]? = some rule.body := by
        rw [bodies, List.getElem?_map, hindex]
        rfl
      exact h.acc_of_mem_needs (List.mem_of_getElem? hindex) .self
        (fun callee hleads => ih callee ⟨rule.body, hbody, hleads⟩) hneeded
    · cases hkey

/-- Chains of needs end. -/
theorem acc_requires (h : grammar.Compiled) (key : Entry.Key) :
    Acc (Plan.Requires grammar.rules.toList) key := by
  cases key with
  | rule index => exact h.acc_requires_rule index
  | loop label =>
    refine ⟨_, fun needed hrequires => ?_⟩
    obtain ⟨entry, hentry, hkey, hneeded⟩ := hrequires
    rcases Plan.mem_entries.1 hentry with ⟨_, _, _, rfl⟩ | ⟨label', body, hbody, rfl⟩
    · cases hkey
    · obtain ⟨rule, hrule, hmem⟩ := List.mem_flatMap.1 hbody
      exact h.acc_of_mem_needs hrule (Expr.part_of_mem_loops hmem).loop
        (fun index _ => h.acc_requires_rule index) hneeded

/-- What an entry needs is the key of an entry. -/
theorem exists_entry_of_mem_needs (h : grammar.Compiled) {entry : Entry}
    (hentry : entry ∈ Plan.entries grammar.rules.toList) {key : Entry.Key}
    (hkey : key ∈ entry.needs grammar.rules.toList) :
    ∃ other ∈ Plan.entries grammar.rules.toList, other.key = key := by
  have hpart {rule : Rule} {expr : Production} (hrule : rule ∈ grammar.rules.toList)
      (hexpr : rule.body.Part expr) (hneeded : key ∈ expr.needs (isNullableRule grammar.bodies)) :
      ∃ other ∈ Plan.entries grammar.rules.toList, other.key = key := by
    rcases Expr.part_of_mem_needs hneeded with ⟨label, body, rfl, hbody⟩ | ⟨index, rfl, hcall⟩
    · have hmem := mem_loops hrule (hexpr.trans hbody)
      exact ⟨_, Plan.mem_entries.2 (Or.inr ⟨label, body, hmem, rfl⟩), rfl⟩
    · have hlt := h.call_lt hrule (hexpr.trans hcall)
      have hindex : grammar.rules.toList[index]? = some grammar.rules[index] := by
        rw [Array.getElem?_toList, Array.getElem?_eq_getElem hlt]
      exact ⟨_, Plan.mem_entries.2 (Or.inl ⟨index, _, hindex, rfl⟩), rfl⟩
  rcases Plan.mem_entries.1 hentry with ⟨index, rule, hrule, rfl⟩ | ⟨label, body, hbody, rfl⟩
  · exact hpart (List.mem_of_getElem? hrule) .self hkey
  · obtain ⟨rule, hrule, hmem⟩ := List.mem_flatMap.1 hbody
    exact hpart hrule (Expr.part_of_mem_loops hmem).loop hkey

/-- At first every entry waits for all it needs. -/
theorem waiting_entries (h : grammar.Compiled) :
    Plan.Waiting grammar.rules.toList [] ((Plan.entries grammar.rules.toList).map fun entry =>
      (entry, entry.needs grammar.rules.toList)) where
  mem_entries hmem := by
    obtain ⟨entry, hentry, heq⟩ := List.mem_map.1 hmem
    obtain ⟨rfl, rfl⟩ := Prod.mk.inj heq
    exact hentry
  met hmem := by
    obtain ⟨entry, -, heq⟩ := List.mem_map.1 hmem
    obtain ⟨rfl, rfl⟩ := Prod.mk.inj heq
    rw [List.append_nil]
    exact List.Subset.refl _
  needed hmem := by
    obtain ⟨entry, -, heq⟩ := List.mem_map.1 hmem
    obtain ⟨rfl, rfl⟩ := Prod.mk.inj heq
    exact List.Subset.refl _
  waits hmem hkey := by
    obtain ⟨entry, hentry, heq⟩ := List.mem_map.1 hmem
    obtain ⟨rfl, rfl⟩ := Prod.mk.inj heq
    obtain ⟨other, hother, hkey'⟩ := h.exists_entry_of_mem_needs hentry hkey
    exact ⟨other, _, List.mem_map.2 ⟨other, hother, rfl⟩, hkey'⟩

/-- The plan holds the entries of the rules, each behind what it needs. -/
theorem perm_and_ordered_plan (h : grammar.Compiled) :
    grammar.plan.Perm (Plan.entries grammar.rules.toList) ∧
      Plan.Ordered grammar.rules.toList [] grammar.plan := by
  have hsettled := h.waiting_entries.settle h.acc_requires (Nat.le_of_eq (List.length_map _))
  rw [List.map_map, show Prod.fst ∘ (fun entry : Entry => (entry,
    entry.needs grammar.rules.toList)) = id from rfl, List.map_id] at hsettled
  rw [h.plan_eq]
  exact hsettled

theorem ordered_plan (h : grammar.Compiled) : Plan.Ordered grammar.rules.toList [] grammar.plan :=
  h.perm_and_ordered_plan.2

/-- The plan holds exactly the entries of the rules. -/
theorem mem_plan (h : grammar.Compiled) {entry : Entry} :
    entry ∈ grammar.plan ↔ entry ∈ Plan.entries grammar.rules.toList :=
  h.perm_and_ordered_plan.1.mem_iff

/-- No entry is planned twice. -/
theorem nodup_keys_plan (h : grammar.Compiled) : (grammar.plan.map Entry.key).Nodup :=
  (h.perm_and_ordered_plan.1.map Entry.key).nodup_iff.2 (Plan.nodup_keys_entries h.nodup_labels)

end Grammar.Compiled

end Retrace
