import Retrace.Grammar.Description
import Retrace.Proofs.Grammar.Expr

/-!
# Expressions with other names and labels

`Expr.map` changes what the names in an expression refer to and how its repetitions are labelled,
and leaves its form as it is: parts correspond to parts, in both directions. The plain form of an
expression as it is written (`Expr.plain`) forgets where its references are written.
-/

namespace Retrace

/-- An expression as it is written, wherever it is written: a reference is nothing but a name. -/
abbrev Description.Plain := Expr String Unit

namespace Expr

variable {Ref Ref' Label Label' : Type}

mutual

/-- The expression with other names and other labels. -/
def map (rename : Ref → Ref') (relabel : Label → Label') : Expr Ref Label → Expr Ref' Label'
  | .literal text => .literal text
  | .call target => .call (rename target)
  | .seq items => .seq (mapAll rename relabel items)
  | .either branches => .either (mapAll rename relabel branches)
  | .optional body => .optional (body.map rename relabel)
  | .loop label body => .loop (relabel label) (body.map rename relabel)

/-- Several expressions with other names and other labels. -/
def mapAll (rename : Ref → Ref') (relabel : Label → Label') :
    List (Expr Ref Label) → List (Expr Ref' Label')
  | [] => []
  | expr :: others => expr.map rename relabel :: mapAll rename relabel others

end

/-- The plain form of an expression as it is written. -/
def plain (expr : Description.RawExpr) : Description.Plain :=
  expr.map Description.Reference.name id

section Map

/-- Lists that give the same have members that give the same. -/
theorem exists_mem_of_map_eq {α β γ : Type} {f : α → γ} {g : β → γ} {items : List α}
    {others : List β} (h : items.map f = others.map g) {item : α} (hitem : item ∈ items) :
    ∃ other ∈ others, g other = f item := by
  have hmem : f item ∈ others.map g := h ▸ List.mem_map_of_mem hitem
  exact List.mem_map.1 hmem

/-- Lists that give the same can be cut at the same place. -/
theorem exists_cut_of_map_eq {α β γ : Type} {f : α → γ} {g : β → γ} {items : List α}
    {front back : List β} {item : β} (h : items.map f = (front ++ item :: back).map g) :
    ∃ front' item' back', items = front' ++ item' :: back' ∧ front'.map f = front.map g ∧
      f item' = g item := by
  rw [List.map_append, List.map_cons] at h
  obtain ⟨front', later, rfl, hfront, hlater⟩ := List.map_eq_append_iff.1 h
  obtain ⟨item', back', rfl, hitem, -⟩ := List.map_eq_cons_iff.1 hlater
  exact ⟨front', item', back', rfl, hfront, hitem⟩

variable {rename : Ref → Ref'} {relabel : Label → Label'}

theorem mapAll_eq (exprs : List (Expr Ref Label)) :
    mapAll rename relabel exprs = exprs.map (map rename relabel) := by
  induction exprs with
  | nil => rfl
  | cons expr others ih => exact congrArg (expr.map rename relabel :: ·) ih

@[simp]
theorem map_literal (text : Text) : (literal text).map rename relabel = .literal text :=
  rfl

@[simp]
theorem map_call (target : Ref) : (call target).map rename relabel = .call (rename target) :=
  rfl

@[simp]
theorem map_seq (items : List (Expr Ref Label)) :
    (seq items).map rename relabel = .seq (items.map (map rename relabel)) :=
  congrArg seq (mapAll_eq items)

@[simp]
theorem map_either (branches : List (Expr Ref Label)) :
    (either branches).map rename relabel = .either (branches.map (map rename relabel)) :=
  congrArg either (mapAll_eq branches)

@[simp]
theorem map_optional (body : Expr Ref Label) :
    (optional body).map rename relabel = .optional (body.map rename relabel) :=
  rfl

@[simp]
theorem map_loop (label : Label) (body : Expr Ref Label) :
    (loop label body).map rename relabel = .loop (relabel label) (body.map rename relabel) :=
  rfl

theorem map_eq_literal_iff {expr : Expr Ref Label} {text : Text} :
    expr.map rename relabel = .literal text ↔ expr = .literal text := by
  cases expr <;> simp

theorem map_eq_call_iff {expr : Expr Ref Label} {target : Ref'} :
    expr.map rename relabel = .call target ↔
      ∃ original, expr = .call original ∧ rename original = target := by
  cases expr <;> simp

theorem map_eq_seq_iff {expr : Expr Ref Label} {items : List (Expr Ref' Label')} :
    expr.map rename relabel = .seq items ↔
      ∃ originals, expr = .seq originals ∧ originals.map (map rename relabel) = items := by
  cases expr <;> simp

theorem map_eq_either_iff {expr : Expr Ref Label} {branches : List (Expr Ref' Label')} :
    expr.map rename relabel = .either branches ↔
      ∃ originals, expr = .either originals ∧ originals.map (map rename relabel) = branches := by
  cases expr <;> simp

theorem map_eq_optional_iff {expr : Expr Ref Label} {body : Expr Ref' Label'} :
    expr.map rename relabel = .optional body ↔
      ∃ original, expr = .optional original ∧ original.map rename relabel = body := by
  cases expr <;> simp

theorem map_eq_loop_iff {expr : Expr Ref Label} {label : Label'} {body : Expr Ref' Label'} :
    expr.map rename relabel = .loop label body ↔
      ∃ label' original, expr = .loop label' original ∧ relabel label' = label ∧
        original.map rename relabel = body := by
  cases expr <;> simp [and_assoc]

theorem children_map (expr : Expr Ref Label) :
    (expr.map rename relabel).children = expr.children.map (map rename relabel) := by
  cases expr <;> simp [children]

/-- What a part becomes is a part of what the whole becomes. -/
theorem Part.map {whole part : Expr Ref Label} (h : whole.Part part) :
    (whole.map rename relabel).Part (part.map rename relabel) := by
  induction h with
  | self => exact .self
  | child _ hpart ih =>
    refine ih.child ?_
    rw [children_map]
    exact List.mem_map_of_mem hpart

/-- A part of what the whole becomes is what a part becomes. -/
theorem exists_part_of_map {whole : Expr Ref Label} {part : Expr Ref' Label'}
    (h : (whole.map rename relabel).Part part) :
    ∃ original, whole.Part original ∧ original.map rename relabel = part := by
  induction h with
  | self => exact ⟨whole, .self, rfl⟩
  | child _ hpart ih =>
    obtain ⟨parent, hparent, rfl⟩ := ih
    rw [children_map] at hpart
    obtain ⟨original, horiginal, rfl⟩ := List.mem_map.1 hpart
    exact ⟨original, hparent.child horiginal, rfl⟩

end Map

end Expr

end Retrace
