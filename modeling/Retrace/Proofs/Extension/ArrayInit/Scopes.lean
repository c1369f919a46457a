import Retrace.Proofs.Extension.ArrayInit.Declarations

/-!
# Constants in scope

What an array declaration becomes depends on the constants that are known where it stands: those
that are defined ahead of it in the same text, and those of the scopes around. A text is judged
statement by statement, with the constants of one statement in scope for the next
(`verdictsIn_append`).

A constant counts only if its value is known. In scopes where fewer constants are known, with the
same values, no more declarations are expanded (`verdictOf_of_below`).

## Main definitions

* `Scopes.defineAll`: define the constants of a text;
* `Scopes.Below`: constants that are known have the same values in other scopes.
-/

namespace Retrace.ArrayInit

/-- The name and the value of a constant. -/
def Constant.binding (constant : Constant) : Text × Int :=
  (constant.name, constant.value)

@[simp] theorem Constant.binding_shift (offset : Nat) (constant : Constant) :
    (constant.shift offset).binding = constant.binding :=
  rfl

namespace Scopes

variable {scopes larger : Scopes} {name : Text} {value : Int}

/-- Define constants in the innermost scope, one after the other. -/
def defineAll (scopes : Scopes) (constants : List Constant) : Scopes :=
  constants.foldl (fun scopes constant => scopes.define constant.name constant.value) scopes

@[simp] theorem defineAll_nil (scopes : Scopes) : scopes.defineAll [] = scopes :=
  rfl

theorem defineAll_append (scopes : Scopes) (front back : List Constant) :
    scopes.defineAll (front ++ back) = (scopes.defineAll front).defineAll back :=
  List.foldl_append

/-- Where constants are defined does not matter to the scopes. -/
theorem defineAll_congr {constants constants' : List Constant}
    (h : constants'.map Constant.binding = constants.map Constant.binding) (scopes : Scopes) :
    scopes.defineAll constants' = scopes.defineAll constants := by
  have hbindings (constants : List Constant) : scopes.defineAll constants =
      (constants.map Constant.binding).foldl
        (fun scopes binding => scopes.define binding.1 binding.2) scopes := by
    rw [List.foldl_map]
    rfl
  rw [hbindings, hbindings, h]

/-- Only the innermost scope changes. -/
theorem tail_defineAll (scope : Scope) (outer : Scopes) (constants : List Constant) :
    (defineAll (scope :: outer) constants).tail = outer := by
  induction constants generalizing scope with
  | nil => rfl
  | cons first later ih => exact ih _

@[simp] theorem lookup?_nil (name : Text) : lookup? [] name = none :=
  rfl

theorem lookup?_cons (scope : Scope) (outer : Scopes) (name : Text) :
    lookup? (scope :: outer) name = (scope.lookup name).or (lookup? outer name) := by
  rw [lookup?, List.findSome?_cons, lookup?]
  cases scope.lookup name <;> rfl

@[simp] theorem lookup?_cons_nil (outer : Scopes) (name : Text) :
    lookup? ([] :: outer) name = lookup? outer name :=
  rfl

/-- A definition hides earlier ones of the same name. -/
theorem lookup?_define (scopes : Scopes) (name other : Text) (value : Int) :
    (scopes.define name value).lookup? other =
      if name = other then some value else scopes.lookup? other := by
  by_cases heq : name = other
  · subst heq
    cases scopes <;> simp [define, lookup?_cons]
  · have hne : (other == name) = false := beq_false_of_ne (Ne.symm heq)
    cases scopes <;> simp [define, lookup?_cons, List.lookup_cons, hne, heq]

/-- The latest definition of a name counts. -/
theorem lookup?_defineAll (scopes : Scopes) (constants : List Constant) (name : Text) :
    (scopes.defineAll constants).lookup? name =
      ((constants.reverse.find? (·.name = name)).map Constant.value).or (scopes.lookup? name) := by
  induction constants generalizing scopes with
  | nil => rfl
  | cons first later ih =>
    show ((scopes.define first.name first.value).defineAll later).lookup? name = _
    rw [ih, lookup?_define, List.reverse_cons, List.find?_append, Option.map_or, Option.or_assoc]
    congr 1
    by_cases heq : first.name = name <;> simp [heq]

/-- Whatever constant is known has the same value in other scopes. -/
def Below (scopes larger : Scopes) : Prop :=
  ∀ name value, scopes.lookup? name = some value → larger.lookup? name = some value

namespace Below

theorem refl (scopes : Scopes) : scopes.Below scopes :=
  fun _ _ h => h

theorem nil (scopes : Scopes) : Below [] scopes :=
  nofun

/-- Beginning a scope makes no constant known. -/
theorem cons_nil (h : scopes.Below larger) : Below ([] :: scopes) ([] :: larger) :=
  fun name value hlookup => h name value hlookup

theorem defineAll (h : scopes.Below larger) (constants : List Constant) :
    (scopes.defineAll constants).Below (larger.defineAll constants) := by
  intro name value hlookup
  rw [lookup?_defineAll] at hlookup ⊢
  rcases Option.or_eq_some_iff.1 hlookup with hhere | ⟨hnone, houter⟩
  · exact Option.or_eq_some_iff.2 (Or.inl hhere)
  · exact Option.or_eq_some_iff.2 (Or.inr ⟨hnone, h name value houter⟩)

end Below

end Scopes

/-! ## Judging a declaration -/

variable {scopes larger : Scopes} {name : Text} {locals later : List Constant}

/-- Constants of the same text come ahead of those of the scopes around. -/
theorem value?_eq (locals : List Constant) (scopes : Scopes) (before : Nat) (name : Text) :
    value? locals scopes before name =
      ((locals.reverse.find? fun constant => constant.start < before && constant.name = name).map
        Constant.value).or (scopes.lookup? name) := by
  unfold value?
  split
  · rename_i constant hfind
    rw [hfind]
    rfl
  · rename_i hfind
    rw [hfind]
    rfl

/-- Constants that are defined behind a declaration do not matter to it. -/
theorem value?_append_of_le {before : Nat} (h : ∀ constant ∈ later, before ≤ constant.start) :
    value? (locals ++ later) scopes before name = value? locals scopes before name := by
  have hnone : later.reverse.find? (fun constant =>
      constant.start < before && constant.name = name) = none := by
    refine List.find?_eq_none.2 fun constant hmem => ?_
    have hle := h constant (List.mem_reverse.1 hmem)
    simp [Nat.not_lt.2 hle]
  rw [value?_eq, value?_eq, List.reverse_append, List.find?_append, hnone, Option.none_or]

/-- Constants that are defined ahead of a text are in scope for all of it. -/
theorem value?_append_shift {offset : Nat} (h : ∀ constant ∈ locals, constant.start < offset)
    (before : Nat) :
    value? (locals ++ later.map (Constant.shift offset)) scopes (offset + before) name =
      value? later (scopes.defineAll locals) before name := by
  have hahead : locals.reverse.find? (fun constant =>
      constant.start < offset + before && constant.name = name) =
        locals.reverse.find? (·.name = name) := by
    refine List.find?_congr fun constant hmem => ?_
    have hlt := h constant (List.mem_reverse.1 hmem)
    simp [Nat.lt_add_right before hlt]
  rw [value?_eq, value?_eq, Scopes.lookup?_defineAll, List.reverse_append, List.find?_append,
    hahead, Option.map_or, Option.or_assoc, ← List.map_reverse, List.find?_map, Option.map_map]
  simp only [Function.comp_def, Constant.shift, Nat.add_lt_add_iff_left]
  rfl

/-- Where fewer constants are known, no more values are. -/
theorem value?_of_below (h : scopes.Below larger) {before : Nat} {value : Int}
    (hvalue : value? locals scopes before name = some value) :
    value? locals larger before name = some value := by
  rw [value?_eq] at hvalue ⊢
  rcases Option.or_eq_some_iff.1 hvalue with hlocal | ⟨hnone, houter⟩
  · exact Option.or_eq_some_iff.2 (Or.inl hlocal)
  · exact Option.or_eq_some_iff.2 (Or.inr ⟨hnone, h name value houter⟩)

/-- The value of a declaration is repeated at least twice. -/
theorem sizeOf?_of_repeated {text : Text} {declaration : Declaration} {count : Nat}
    (h : verdictOf text locals scopes declaration = .repeated count) :
    sizeOf? text locals scopes declaration = some (count : Int) ∧ 2 ≤ count := by
  unfold verdictOf at h
  split at h
  · cases h
  · rename_i size hsize
    split at h
    · cases h
    · split at h
      · cases h
      · obtain rfl := Verdict.repeated.inj h
        have hnat : ((size.toNat : Nat) : Int) = size := Int.toNat_of_nonneg (by omega)
        exact ⟨by rw [hsize, hnat], by omega⟩

/-- Where fewer constants are known, no more declarations are expanded. -/
theorem verdictOf_of_below (h : scopes.Below larger) {text : Text} {declaration : Declaration}
    {count : Nat} (hverdict : verdictOf text locals scopes declaration = .repeated count) :
    verdictOf text locals larger declaration = .repeated count := by
  obtain ⟨hsize, -⟩ := sizeOf?_of_repeated hverdict
  have hlarger : sizeOf? text locals larger declaration =
      sizeOf? text locals scopes declaration := by
    rw [hsize]
    unfold sizeOf? at hsize ⊢
    dsimp only at hsize ⊢
    split
    · rename_i number hnumber
      rwa [hnumber] at hsize
    · rename_i hnumber
      rw [hnumber] at hsize
      exact value?_of_below h hsize
  unfold verdictOf at hverdict ⊢
  rw [hlarger]
  exact hverdict

/-! ## Statements -/

variable {body : Text}

theorem constantsIn_eq_foundIn (text : Text) :
    constantsIn text = constants.foundIn constantOf? text :=
  rfl

theorem declarationsIn_eq_foundIn (text : Text) :
    declarationsIn text = arrays.foundIn declarationOf? text :=
  rfl

/-- The constants of a statement come ahead of those behind it. -/
theorem constantsIn_append (hbody : ';' ∉ body) (back : Text) :
    constantsIn (body ++ ';' :: back) = constantsIn (body ++ [';']) ++
      (constantsIn back).map (Constant.shift (Text.size (body ++ [';']))) :=
  statements_constants.foundIn_append hbody back

/-- The declarations of a statement come ahead of those behind it. -/
theorem declarationsIn_append (hbody : ';' ∉ body) (back : Text) :
    declarationsIn (body ++ ';' :: back) = declarationsIn (body ++ [';']) ++
      (declarationsIn back).map (Declaration.shift (Text.size (body ++ [';']))) :=
  statements_arrays.foundIn_append hbody back

/-- Constants begin ahead of the end of their statement. -/
theorem start_lt_of_mem_constantsIn (hbody : ';' ∉ body) {constant : Constant}
    (h : constant ∈ constantsIn (body ++ [';'])) :
    constant.start < Text.size (body ++ [';']) := by
  rcases statements_constants.foundIn_statement hbody with hnone |
    ⟨ahead, region, tree, hcut, htree, hfound⟩
  · rw [constantsIn_eq_foundIn, hnone] at h
    cases h
  · obtain ⟨front, behind, rfl, -, -, hread⟩ := exists_of_reads_constant htree
    rw [constantsIn_eq_foundIn, hfound, Option.mem_toList, hread, constantAt] at h
    obtain ⟨value, -, rfl⟩ := Option.map_eq_some_iff.1 h
    have htake : Text.size (front.takeWhile Text.isBlank ++ front.dropWhile Text.isBlank) =
        Text.size front := by
      rw [List.takeWhile_append_dropWhile]
    have hequals := Char.utf8Size_pos '='
    simp only [hcut, Text.size_append, Text.size_cons] at htake ⊢
    omega

/-- In a statement there is no array declaration, or one. -/
theorem declarationsIn_statement (hbody : ';' ∉ body) :
    declarationsIn (body ++ [';']) = [] ∨ ∃ ahead, ∃ layout : Layout, layout.WellFormed ∧
      body ++ [';'] = ahead ++ layout.text ∧
      declarationsIn (body ++ [';']) = [layout.declaration (Text.size ahead)] := by
  refine (statements_arrays.foundIn_statement hbody).imp_right ?_
  rintro ⟨ahead, region, tree, hcut, htree, hfound⟩
  obtain ⟨layout, hlayout, rfl, hread⟩ := exists_of_reads_array htree
  exact ⟨ahead, layout, hlayout, hcut, by rw [declarationsIn_eq_foundIn, hfound, hread]; rfl⟩

section Pieces

variable (ahead behind : Text) (layout : Layout)

/-- The size of a declaration is the one in its layout. -/
theorem piece_size : piece (ahead ++ (layout.text ++ behind))
    (layout.declaration (Text.size ahead)).size = layout.size := by
  have hslice := @Text.slice_append (ahead ++ layout.ahead)
    (layout.between ++ (layout.value ++ (layout.behind ++ ';' :: behind))) layout.size
  simpa [piece, Layout.declaration, Layout.text, Nat.add_assoc] using hslice

/-- The value of a declaration is the one in its layout. -/
theorem piece_value : piece (ahead ++ (layout.text ++ behind))
    (layout.declaration (Text.size ahead)).value = layout.value := by
  have hslice := @Text.slice_append (ahead ++ (layout.ahead ++ (layout.size ++ layout.between)))
    (layout.behind ++ ';' :: behind) layout.value
  simpa [piece, Layout.declaration, Layout.text, Nat.add_assoc] using hslice

end Pieces

/-- The same piece further behind. -/
theorem piece_shift (front back : Text) (span : Span) :
    piece (front ++ back) (span.shift (Text.size front)) = piece back span := by
  rw [piece, piece, Span.shift, Nat.add_comm span.start, Nat.add_comm span.stop,
    Text.slice_size_add]

/-- What comes of a declaration in a statement does not depend on what follows. -/
theorem verdictOf_statement (hbody : ';' ∉ body) (back : Text) (scopes : Scopes)
    {declaration : Declaration} (h : declaration ∈ declarationsIn (body ++ [';'])) :
    verdictOf (body ++ ';' :: back) (constantsIn (body ++ ';' :: back)) scopes declaration =
      verdictOf (body ++ [';']) (constantsIn (body ++ [';'])) scopes declaration := by
  have hcut : body ++ ';' :: back = (body ++ [';']) ++ back := by simp
  rcases declarationsIn_statement hbody with hnone | ⟨ahead, layout, hlayout, htext, hone⟩
  · rw [hnone] at h
    cases h
  · rw [hone] at h
    obtain rfl := List.mem_singleton.1 h
    have hsize : piece (body ++ ';' :: back) (layout.declaration (Text.size ahead)).size =
        layout.size := by
      rw [hcut, htext, List.append_assoc]
      exact piece_size ahead back layout
    have hsize' : piece (body ++ [';']) (layout.declaration (Text.size ahead)).size =
        layout.size := by
      simpa [htext] using piece_size ahead [] layout
    -- All constants behind the statement are defined behind the declaration.
    have hle : ∀ constant ∈ (constantsIn back).map
        (Constant.shift (Text.size (body ++ [';']))),
        (layout.declaration (Text.size ahead)).start ≤ constant.start := by
      have htake : Text.size (layout.qualifiers.takeWhile Text.isBlank ++
          layout.qualifiers.dropWhile Text.isBlank) = Text.size layout.qualifiers := by
        rw [List.takeWhile_append_dropWhile]
      rw [List.forall_mem_map]
      intro constant _
      simp only [htext, Constant.shift, Layout.declaration, Layout.text, Layout.ahead, Layout.head,
        Text.size_append] at htake ⊢
      omega
    unfold verdictOf sizeOf?
    dsimp only
    rw [hsize, hsize', constantsIn_append hbody, value?_append_of_le hle]

/-- What comes of a declaration behind a statement, with the constants of the statement in scope. -/
theorem verdictOf_shift (hbody : ';' ∉ body) (back : Text) (scopes : Scopes)
    (declaration : Declaration) :
    verdictOf (body ++ ';' :: back) (constantsIn (body ++ ';' :: back)) scopes
        (declaration.shift (Text.size (body ++ [';']))) =
      verdictOf back (constantsIn back) (scopes.defineAll (constantsIn (body ++ [';'])))
        declaration := by
  have hcut : body ++ ';' :: back = (body ++ [';']) ++ back := by simp
  have hpiece : piece (body ++ ';' :: back)
      (declaration.shift (Text.size (body ++ [';']))).size = piece back declaration.size := by
    rw [hcut]
    exact piece_shift ..
  unfold verdictOf sizeOf?
  dsimp only
  rw [hpiece, constantsIn_append hbody, Declaration.shift,
    value?_append_shift fun constant => start_lt_of_mem_constantsIn hbody]

/-- The declarations in a text are judged statement by statement, with the constants of a statement
in scope for what follows. -/
theorem verdictsIn_append (hbody : ';' ∉ body) (back : Text) (scopes : Scopes) :
    verdictsIn (body ++ ';' :: back) scopes = verdictsIn (body ++ [';']) scopes ++
      (verdictsIn back (scopes.defineAll (constantsIn (body ++ [';'])))).map fun entry =>
        (entry.1.shift (Text.size (body ++ [';'])), entry.2) := by
  unfold verdictsIn
  dsimp only
  rw [declarationsIn_append hbody, List.map_append, List.map_map, List.map_map]
  congr 1
  · exact List.map_congr_left fun declaration h => by rw [verdictOf_statement hbody back scopes h]
  · exact List.map_congr_left fun declaration _ =>
      congrArg _ (verdictOf_shift hbody back scopes declaration)

end Retrace.ArrayInit
