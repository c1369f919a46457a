import Retrace.Grammar.Plan

/-!
# Reasoning about expressions

Expressions contain lists of expressions, so what Lean derives for them speaks about expressions and
lists at once. Here is one induction principle on expressions alone (`Expr.ind`), and the functions
that are defined on lists of expressions are given in terms of those on expressions.
-/

namespace Retrace.Expr

section Structure

variable {Ref Label : Type}

/-- To prove a property of all expressions, prove it of each form, assuming it of the parts. -/
@[elab_as_elim]
theorem ind {motive : Expr Ref Label → Prop} (expr : Expr Ref Label)
    (literal : ∀ text, motive (.literal text))
    (call : ∀ target, motive (.call target))
    (seq : ∀ items, (∀ item ∈ items, motive item) → motive (.seq items))
    (either : ∀ branches, (∀ branch ∈ branches, motive branch) → motive (.either branches))
    (optional : ∀ body, motive body → motive (.optional body))
    (loop : ∀ label body, motive body → motive (.loop label body)) : motive expr := by
  refine @Expr.rec Ref Label motive (fun items => ∀ item ∈ items, motive item) literal call seq
    either optional loop ?_ ?_ expr
  · intro item h
    cases h
  · intro first later hfirst hlater item h
    rcases List.mem_cons.1 h with rfl | h
    · exact hfirst
    · exact hlater item h

/-- The expressions of which an expression consists. -/
def children : Expr Ref Label → List (Expr Ref Label)
  | .literal _ => []
  | .call _ => []
  | .seq items => items
  | .either branches => branches
  | .optional body => [body]
  | .loop _ body => [body]

/-- The expressions inside an expression, itself included. -/
inductive Part (whole : Expr Ref Label) : Expr Ref Label → Prop
  | self : Part whole whole
  | child {parent part : Expr Ref Label} : Part whole parent → part ∈ parent.children →
      Part whole part

namespace Part

variable {whole part : Expr Ref Label}

theorem item {items : List (Expr Ref Label)} (h : whole.Part (.seq items)) (hpart : part ∈ items) :
    whole.Part part :=
  h.child hpart

theorem branch {branches : List (Expr Ref Label)} (h : whole.Part (.either branches))
    (hpart : part ∈ branches) : whole.Part part :=
  h.child hpart

theorem optional (h : whole.Part (.optional part)) : whole.Part part :=
  h.child List.mem_cons_self

theorem loop {label : Label} (h : whole.Part (.loop label part)) : whole.Part part :=
  h.child List.mem_cons_self

theorem trans {inner : Expr Ref Label} (h : whole.Part part) (hinner : part.Part inner) :
    whole.Part inner := by
  induction hinner with
  | self => exact h
  | child _ hpart ih => exact ih.child hpart

/-- A part is the whole or stands in one of those of which the whole consists. -/
theorem eq_or_exists_child (h : whole.Part part) :
    part = whole ∨ ∃ child ∈ whole.children, child.Part part := by
  induction h with
  | self => exact Or.inl rfl
  | child _ hpart ih =>
    rcases ih with rfl | ⟨child, hchild, hparent⟩
    · exact Or.inr ⟨_, hpart, .self⟩
    · exact Or.inr ⟨child, hchild, hparent.child hpart⟩

end Part

theorem loopsAll_eq (exprs : List (Expr Ref Label)) : loopsAll exprs = exprs.flatMap loops := by
  induction exprs with
  | nil => rfl
  | cons expr others ih => rw [loopsAll, ih, List.flatMap_cons]

/-- The repetitions of those of which an expression consists are repetitions of the expression. -/
theorem loops_subset_of_mem_children {expr child : Expr Ref Label} (h : child ∈ expr.children) :
    child.loops ⊆ expr.loops := by
  intro entry hentry
  cases expr with
  | literal => cases h
  | call => cases h
  | seq items =>
    rw [loops, loopsAll_eq]
    exact List.mem_flatMap.2 ⟨child, h, hentry⟩
  | either branches =>
    rw [loops, loopsAll_eq]
    exact List.mem_flatMap.2 ⟨child, h, hentry⟩
  | optional body =>
    obtain rfl := List.mem_singleton.1 h
    exact hentry
  | loop label body =>
    obtain rfl := List.mem_singleton.1 h
    rw [loops]
    exact List.mem_append_left _ hentry

/-- The repetitions in a part are repetitions of the whole. -/
theorem Part.loops_subset {whole part : Expr Ref Label} (h : whole.Part part) :
    part.loops ⊆ whole.loops := by
  induction h with
  | self => exact List.Subset.refl _
  | child _ hpart ih => exact fun entry hentry => ih (loops_subset_of_mem_children hpart hentry)

/-- A repetition inside an expression is listed with its body. -/
theorem Part.mem_loops {whole body : Expr Ref Label} {label : Label}
    (h : whole.Part (.loop label body)) : (label, body) ∈ whole.loops := by
  refine h.loops_subset ?_
  rw [loops]
  exact List.mem_append_right _ (List.mem_singleton.2 rfl)

/-- What is listed as a repetition in a part is one inside the whole. -/
theorem Part.loop_of_mem_loops {whole part body : Expr Ref Label} {label : Label}
    (h : whole.Part part) (hmem : (label, body) ∈ part.loops) : whole.Part (.loop label body) := by
  induction part using ind with
  | literal => cases hmem
  | call => cases hmem
  | seq items ih =>
    rw [loops, loopsAll_eq] at hmem
    obtain ⟨item, hitem, hmem⟩ := List.mem_flatMap.1 hmem
    exact ih item hitem (h.item hitem) hmem
  | either branches ih =>
    rw [loops, loopsAll_eq] at hmem
    obtain ⟨branch, hbranch, hmem⟩ := List.mem_flatMap.1 hmem
    exact ih branch hbranch (h.branch hbranch) hmem
  | optional body ih => exact ih h.optional hmem
  | loop label' body' ih =>
    rw [loops] at hmem
    rcases List.mem_append.1 hmem with hmem | hmem
    · exact ih h.loop hmem
    · obtain ⟨rfl, rfl⟩ := Prod.mk.inj (List.mem_singleton.1 hmem)
      exact h

/-- What is listed as a repetition is one inside the expression. -/
theorem part_of_mem_loops {whole body : Expr Ref Label} {label : Label}
    (h : (label, body) ∈ whole.loops) : whole.Part (.loop label body) :=
  Part.loop_of_mem_loops .self h

end Structure

variable {nullable : Nat → Bool}

theorem allNullable_eq (items : List Production) :
    allNullable nullable items = items.all (isNullable nullable) := by
  induction items with
  | nil => rfl
  | cons item items ih => rw [allNullable, ih, List.all_cons]

theorem someNullable_eq (branches : List Production) :
    someNullable nullable branches = branches.any (isNullable nullable) := by
  induction branches with
  | nil => rfl
  | cons branch branches ih => rw [someNullable, ih, List.any_cons]

theorem leftCallsEither_eq (branches : List Production) :
    leftCallsEither nullable branches = branches.flatMap (leftCalls nullable) := by
  induction branches with
  | nil => rfl
  | cons branch branches ih => rw [leftCallsEither, ih, List.flatMap_cons]

theorem needsEither_eq (branches : List Production) :
    needsEither nullable branches = branches.flatMap (needs nullable) := by
  induction branches with
  | nil => rfl
  | cons branch branches ih => rw [needsEither, ih, List.flatMap_cons]

/-- The items of a sequence up to the first one that reads something. -/
def leading (nullable : Nat → Bool) : List Production → List Production
  | [] => []
  | item :: items => item :: if item.isNullable nullable then leading nullable items else []

/-- The leading items are those behind nullable ones. -/
theorem mem_leading {item : Production} {items : List Production} :
    item ∈ leading nullable items ↔ ∃ front back, items = front ++ item :: back ∧
      ∀ ahead ∈ front, ahead.isNullable nullable = true := by
  induction items with
  | nil => simp [leading]
  | cons first items ih =>
    rw [leading, List.mem_cons]
    constructor
    · -- The first item leads whatever it is; the others do if it is nullable.
      rintro (rfl | h)
      · exact ⟨[], items, rfl, fun _ hmem => (List.not_mem_nil hmem).elim⟩
      · split at h
        · rename_i hfirst
          obtain ⟨front, back, rfl, hfront⟩ := ih.1 h
          refine ⟨first :: front, back, rfl, fun ahead hmem => ?_⟩
          rcases List.mem_cons.1 hmem with rfl | hmem
          · exact hfirst
          · exact hfront ahead hmem
        · cases h
    · rintro ⟨front, back, hitems, hfront⟩
      cases front with
      | nil =>
        obtain ⟨rfl, -⟩ := List.cons.inj hitems
        exact Or.inl rfl
      | cons ahead front =>
        obtain ⟨rfl, rfl⟩ := List.cons.inj hitems
        rw [if_pos (hfront first List.mem_cons_self)]
        exact Or.inr (ih.2 ⟨front, back, rfl,
          fun ahead hmem => hfront ahead (List.mem_cons_of_mem _ hmem)⟩)

theorem leading_subset {items : List Production} : leading nullable items ⊆ items := by
  intro item hitem
  obtain ⟨front, back, rfl, -⟩ := mem_leading.1 hitem
  simp

theorem leftCallsSeq_eq (items : List Production) :
    leftCallsSeq nullable items = (leading nullable items).flatMap (leftCalls nullable) := by
  induction items with
  | nil => rfl
  | cons item items ih =>
    rw [leftCallsSeq, leading, List.flatMap_cons, ih]
    split <;> rfl

theorem needsSeq_eq (items : List Production) :
    needsSeq nullable items = (leading nullable items).flatMap (needs nullable) := by
  induction items with
  | nil => rfl
  | cons item items ih =>
    rw [needsSeq, leading, List.flatMap_cons, ih]
    split <;> rfl

/-- A sequence calls on the left what an item calls on the left behind nullable ones. -/
theorem mem_leftCallsSeq {index : Nat} {items : List Production} :
    index ∈ leftCallsSeq nullable items ↔
      ∃ front item back, items = front ++ item :: back ∧
        (∀ ahead ∈ front, ahead.isNullable nullable = true) ∧ index ∈ item.leftCalls nullable := by
  rw [leftCallsSeq_eq, List.mem_flatMap]
  constructor
  · rintro ⟨item, hitem, h⟩
    obtain ⟨front, back, hitems, hfront⟩ := mem_leading.1 hitem
    exact ⟨front, item, back, hitems, hfront, h⟩
  · rintro ⟨front, item, back, hitems, hfront, h⟩
    exact ⟨item, mem_leading.2 ⟨front, back, hitems, hfront⟩, h⟩

/-- What an expression needs before anything has been read stands inside it. -/
theorem part_of_mem_needs {expr : Production} {key : Entry.Key} (h : key ∈ expr.needs nullable) :
    (∃ label body, key = .loop label ∧ expr.Part (.loop label body)) ∨
      ∃ index, key = .rule index ∧ expr.Part (.call (.rule index)) := by
  -- What stands in a part stands in the whole.
  have hlift {whole part : Production} (hpart : whole.Part part)
      (h : (∃ label body, key = .loop label ∧ part.Part (.loop label body)) ∨
        ∃ index, key = .rule index ∧ part.Part (.call (.rule index))) :
      (∃ label body, key = .loop label ∧ whole.Part (.loop label body)) ∨
        ∃ index, key = .rule index ∧ whole.Part (.call (.rule index)) := by
    rcases h with ⟨label, body, rfl, hbody⟩ | ⟨index, rfl, hcall⟩
    · exact Or.inl ⟨label, body, rfl, hpart.trans hbody⟩
    · exact Or.inr ⟨index, rfl, hpart.trans hcall⟩
  induction expr using ind with
  | literal => cases h
  | call target =>
    cases target with
    | token => cases h
    | rule index =>
      rw [needs, List.mem_singleton] at h
      exact Or.inr ⟨index, h, .self⟩
  | seq items ih =>
    rw [needs, needsSeq_eq] at h
    obtain ⟨item, hitem, hkey⟩ := List.mem_flatMap.1 h
    obtain ⟨front, back, rfl, -⟩ := mem_leading.1 hitem
    have hmem : item ∈ front ++ item :: back := by simp
    exact hlift (Part.self.item hmem) (ih item hmem hkey)
  | either branches ih =>
    rw [needs, needsEither_eq] at h
    obtain ⟨branch, hbranch, hkey⟩ := List.mem_flatMap.1 h
    exact hlift (Part.self.branch hbranch) (ih branch hbranch hkey)
  | optional body ih => exact hlift Part.self.optional (ih h)
  | loop label body =>
    rw [needs, List.mem_singleton] at h
    exact Or.inl ⟨label, body, h, .self⟩

end Retrace.Expr
