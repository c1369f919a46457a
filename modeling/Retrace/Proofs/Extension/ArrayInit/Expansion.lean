import Retrace.Proofs.Extension.ArrayInit.Scopes

/-!
# Expanding a text once and for all

When a value is repeated, commas come into its declaration, and no array declaration with a single
value contains a comma. So an expanded statement holds neither such a declaration nor a constant,
the other statements stay as they are, and the constants of the text keep their names and values. A
second expansion, in scopes where no other constants are known, therefore finds nothing to repeat
(`exists_turns_patchesIn`).

## Main definitions

* `patchesIn`: the edits that expand a text;
* `Settles`: there is nothing to repeat in a text that was expanded.
-/

namespace Retrace.ArrayInit

variable {text settled body : Text} {scopes : Scopes}

/-! ## Edits -/

/-- The edits that expand the declarations in a text, in order. -/
def patchesIn (text : Text) (scopes : Scopes) : List Patch :=
  (verdictsIn text scopes).filterMap fun entry =>
    (expansion? text entry.1 entry.2).map (Patch.mk entry.1.value)

/-- A declaration in a statement is expanded in the same way whatever follows. -/
theorem expansion?_statement (hbody : ';' ∉ body) (back : Text) {declaration : Declaration}
    (h : declaration ∈ declarationsIn (body ++ [';'])) (verdict : Verdict) :
    expansion? (body ++ ';' :: back) declaration verdict =
      expansion? (body ++ [';']) declaration verdict := by
  have hcut : body ++ ';' :: back = (body ++ [';']) ++ back := by simp
  rcases declarationsIn_statement hbody with hnone | ⟨ahead, layout, hlayout, htext, hone⟩
  · rw [hnone] at h
    cases h
  · rw [hone] at h
    obtain rfl := List.mem_singleton.1 h
    have hvalue : piece (body ++ ';' :: back) (layout.declaration (Text.size ahead)).value =
        layout.value := by
      rw [hcut, htext, List.append_assoc]
      exact piece_value ahead back layout
    have hvalue' : piece (body ++ [';']) (layout.declaration (Text.size ahead)).value =
        layout.value := by
      simpa [htext] using piece_value ahead [] layout
    cases verdict <;> simp only [expansion?, hvalue, hvalue']

/-- The edits of a text are made statement by statement. -/
theorem patchesIn_append (hbody : ';' ∉ body) (back : Text) (scopes : Scopes) :
    patchesIn (body ++ ';' :: back) scopes = patchesIn (body ++ [';']) scopes ++
      (patchesIn back (scopes.defineAll (constantsIn (body ++ [';'])))).map
        (Patch.shift (Text.size (body ++ [';']))) := by
  have hcut : body ++ ';' :: back = (body ++ [';']) ++ back := by simp
  unfold patchesIn
  rw [verdictsIn_append hbody, List.filterMap_append, List.filterMap_map, List.map_filterMap]
  -- The verdicts are those of the statement and those of the rest, and so are the edits.
  congr 1
  · refine List.filterMap_congr fun entry hentry => ?_
    have hmem : entry.1 ∈ declarationsIn (body ++ [';']) := by
      rw [← map_fst_verdictsIn _ scopes]
      exact List.mem_map_of_mem hentry
    rw [expansion?_statement hbody back hmem]
  · refine List.filterMap_congr fun entry _ => ?_
    obtain ⟨declaration, verdict⟩ := entry
    have hpiece : piece (body ++ ';' :: back)
        (declaration.shift (Text.size (body ++ [';']))).value = piece back declaration.value := by
      rw [hcut]
      exact piece_shift ..
    have hexpansion : expansion? (body ++ ';' :: back)
        (declaration.shift (Text.size (body ++ [';']))) verdict =
          expansion? back declaration verdict := by
      cases verdict <;> simp only [expansion?, hpiece]
    simp only [Function.comp_def, hexpansion, Option.map_map]
    rfl

/-! ## Texts without anything to repeat -/

/-- The text `settled` defines the same constants as `text`, and in scopes where no constants are
known but those of `scopes` nothing is repeated in it. -/
structure Settles (scopes : Scopes) (text settled : Text) : Prop where
  /-- The constants have the same names and values. -/
  bindings_eq :
    (constantsIn settled).map Constant.binding = (constantsIn text).map Constant.binding
  /-- Nothing is repeated. -/
  ne_repeated : ∀ {smaller : Scopes}, smaller.Below scopes → ∀ entry ∈ verdictsIn settled smaller,
    ∀ count, entry.2 ≠ .repeated count

namespace Settles

/-- A text in which nothing is repeated may stay as it is. -/
theorem refl (h : ∀ entry ∈ verdictsIn text scopes, ∀ count, entry.2 ≠ .repeated count) :
    Settles scopes text text where
  bindings_eq := rfl
  ne_repeated := by
    intro smaller hbelow entry hentry count hrepeated
    obtain ⟨declaration, hdeclaration, rfl⟩ := List.mem_map.1 hentry
    refine h (declaration, _) (List.mem_map_of_mem hdeclaration) count ?_
    exact verdictOf_of_below hbelow hrepeated

/-- Without declarations nothing is repeated. -/
theorem of_declarationsIn_eq_nil (hconstants : constantsIn text = [])
    (hconstants' : constantsIn settled = []) (h : declarationsIn settled = []) :
    Settles scopes text settled where
  bindings_eq := by rw [hconstants, hconstants']
  ne_repeated := by
    intro smaller _ entry hentry
    rw [verdictsIn, h] at hentry
    cases hentry

/-- A text is settled statement by statement. -/
theorem append {body' back back' : Text} (hbody : ';' ∉ body) (hbody' : ';' ∉ body')
    (h : Settles scopes (body ++ [';']) (body' ++ [';']))
    (hback : Settles (scopes.defineAll (constantsIn (body ++ [';']))) back back') :
    Settles scopes (body ++ ';' :: back) (body' ++ ';' :: back') where
  bindings_eq := by
    rw [constantsIn_append hbody, constantsIn_append hbody']
    simp [Function.comp_def, h.bindings_eq, hback.bindings_eq]
  ne_repeated := by
    intro smaller hbelow entry hentry
    rw [verdictsIn_append hbody'] at hentry
    rcases List.mem_append.1 hentry with hentry | hentry
    · exact h.ne_repeated hbelow entry hentry
    · obtain ⟨later, hlater, rfl⟩ := List.mem_map.1 hentry
      refine hback.ne_repeated ?_ later hlater
      -- The constants of the statement are the same as before.
      rw [Scopes.defineAll_congr h.bindings_eq]
      exact hbelow.defineAll _

/-- In a text that is settled there is nothing to edit. -/
theorem patchesIn_eq_nil (h : Settles scopes text settled) {smaller : Scopes}
    (hbelow : smaller.Below scopes) : patchesIn settled smaller = [] := by
  refine List.filterMap_eq_nil_iff.2 fun entry hentry => ?_
  obtain ⟨declaration, verdict⟩ := entry
  cases verdict with
  | repeated count => exact absurd rfl (h.ne_repeated hbelow _ hentry count)
  | kept | unknownSize | badSize => rfl

end Settles

/-! ## Expanded statements -/

/-- If the end of a text contains something that is only ahead of some place, it contains what is at
this place. -/
theorem mem_of_append_eq {ahead region front back : Text} {c d : Char}
    (h : front ++ c :: back = ahead ++ region) (hd : d ∈ region) (hback : d ∉ c :: back) :
    c ∈ region := by
  rcases List.append_eq_append_iff.1 h with ⟨middle, rfl, hcut⟩ | ⟨middle, rfl, rfl⟩
  · exact absurd (by simp [hcut, hd]) hback
  · simp

theorem copies_succ (count : Nat) (value : Text) :
    copies (count + 2) value = value ++ (',' :: ' ' :: copies (count + 1) value) :=
  rfl

/-- Copies are made of the value, commas and blanks. -/
theorem mem_copies {count : Nat} {value : Text} {c : Char} (h : c ∈ copies count value) :
    c = ',' ∨ c = ' ' ∨ c ∈ value := by
  match count with
  | 0 => cases h
  | 1 =>
    have hone : copies 1 value = value := List.append_nil value
    rw [hone] at h
    exact Or.inr (Or.inr h)
  | count + 2 =>
    rw [copies_succ] at h
    simp only [List.mem_append, List.mem_cons] at h
    rcases h with h | h | h | h
    · exact Or.inr (Or.inr h)
    · exact Or.inl h
    · exact Or.inr (Or.inl h)
    · exact mem_copies h

/-- A declaration with another value, up to the semicolon. -/
def Layout.written (layout : Layout) (value : Text) : Text :=
  layout.ahead ++ (layout.size ++ (layout.between ++ (value ++ layout.behind)))

theorem Layout.text_eq (layout : Layout) : layout.text = layout.written layout.value ++ [';'] := by
  simp [text, written]

section Statements

variable {ahead : Text} {layout : Layout}

/-- A statement that ends like an array declaration defines no constant. -/
theorem constantsIn_eq_nil (hlayout : layout.WellFormed) (hbody : ';' ∉ body)
    (htext : body ++ [';'] = ahead ++ (layout.behind ++ [';'])) :
    constantsIn (body ++ [';']) = [] := by
  rcases statements_constants.foundIn_statement hbody with hnone |
    ⟨ahead', region, tree, hcut, htree, -⟩
  · exact hnone
  · obtain ⟨hequals, -, hbrace⟩ := marks_of_reads_constant htree
    have hplain : '=' ∉ '\x7d' :: (layout.beforeSemicolon ++ [';']) := by
      have hblank := hlayout.isBlank layout.beforeSemicolon (by simp [Layout.gaps])
      have hnone := Shape.not_mem_of_all_isLoose (Shape.all_isLoose_of_isBlank hblank)
        (by decide : Shape.isLoose '=' = false)
      simp [hnone]
    have hcut' : (ahead ++ layout.beforeEnd) ++ '\x7d' :: (layout.beforeSemicolon ++ [';']) =
        ahead' ++ region := by
      rw [← hcut, htext]
      simp [Layout.behind]
    -- The match begins ahead of an equals sign, so it contains the closing brace behind it.
    exact absurd (mem_of_append_eq hcut' hequals hplain) hbrace

/-- A statement with a list of values is no array declaration with a single value. -/
theorem declarationsIn_eq_nil (hlayout : layout.WellFormed) (hbody : ';' ∉ body) {back : Text}
    (hback : '=' ∉ back)
    (htext : body ++ [';'] = ahead ++ ',' :: (back ++ (layout.behind ++ [';']))) :
    declarationsIn (body ++ [';']) = [] := by
  rcases statements_arrays.foundIn_statement hbody with hnone |
    ⟨ahead', region, tree, hcut, htree, -⟩
  · exact hnone
  · obtain ⟨hequals, hcomma, -⟩ := marks_of_reads_array htree
    have hplain : '=' ∉ ',' :: (back ++ (layout.behind ++ [';'])) := by
      have hbehind := (hlayout.mem_text '=' (by decide)).2
      simp at hbehind
      simp [hback, hbehind]
    -- The match begins ahead of an equals sign, so it contains the comma behind it.
    exact absurd (mem_of_append_eq (htext.symm.trans hcut) hequals hplain) hcomma

/-- A character that stands neither in values nor between copies stands in no copies. -/
theorem not_mem_copies (hlayout : layout.WellFormed) (count : Nat) {c : Char}
    (hc : (Shape.isLoose c || c = '-') = false) (hcomma : c ≠ ',') :
    c ∉ copies count layout.value := by
  intro hmem
  rcases mem_copies hmem with rfl | rfl | hmem
  · exact hcomma rfl
  · exact absurd hc (by decide)
  · exact Bool.eq_false_iff.1 hc (List.all_eq_true.1 hlayout.value_loose c hmem)

/-- With copies of its value, a declaration still ends with the first semicolon. -/
theorem not_mem_expanded (hlayout : layout.WellFormed) (count : Nat)
    (hbody : ';' ∉ ahead ++ layout.written layout.value) :
    ';' ∉ ahead ++ layout.written (copies count layout.value) := by
  have hcopies := not_mem_copies hlayout count (c := ';') (by decide) (by decide)
  simp only [Layout.written, List.mem_append, not_or] at hbody ⊢
  tauto

/-- A declaration with copies of its value is settled. -/
theorem settles_expanded (hlayout : layout.WellFormed) (count : Nat)
    (hbody : ';' ∉ ahead ++ layout.written layout.value) (scopes : Scopes) :
    Settles scopes (ahead ++ layout.written layout.value ++ [';'])
      (ahead ++ layout.written (copies (count + 2) layout.value) ++ [';']) := by
  have hbody' := not_mem_expanded hlayout (count + 2) hbody
  apply Settles.of_declarationsIn_eq_nil
  · exact @constantsIn_eq_nil _ (ahead ++ (layout.ahead ++ (layout.size ++
      (layout.between ++ layout.value)))) layout hlayout hbody (by simp [Layout.written])
  · exact @constantsIn_eq_nil _ (ahead ++ (layout.ahead ++ (layout.size ++
      (layout.between ++ copies (count + 2) layout.value)))) layout hlayout hbody'
      (by simp [Layout.written])
  · -- The comma behind the first copy is what no declaration with a single value has.
    have hequals := not_mem_copies hlayout (count + 1) (c := '=') (by decide) (by decide)
    exact @declarationsIn_eq_nil _ (ahead ++ (layout.ahead ++ (layout.size ++ (layout.between ++
      layout.value)))) layout hlayout hbody' (' ' :: copies (count + 1) layout.value)
      (by simp [hequals]) (by simp [Layout.written, copies_succ])

end Statements

/-- Repeating the value of the declaration in a statement settles the statement. -/
theorem exists_settles_statement (hbody : ';' ∉ body) (scopes : Scopes) :
    ∃ body', ';' ∉ body' ∧
      Patch.Turns (patchesIn (body ++ [';']) scopes) 0 (body ++ [';']) (body' ++ [';']) ∧
      Settles scopes (body ++ [';']) (body' ++ [';']) := by
  by_cases hrepeated : ∃ entry ∈ verdictsIn (body ++ [';']) scopes, ∃ count,
    entry.2 = .repeated count
  · obtain ⟨⟨declaration, verdict⟩, hentry, count, rfl⟩ := hrepeated
    rcases declarationsIn_statement hbody with hnone | ⟨ahead, layout, hlayout, htext, hone⟩
    · rw [verdictsIn, hnone] at hentry
      cases hentry
    have hverdict : verdictOf (body ++ [';']) (constantsIn (body ++ [';'])) scopes
        (layout.declaration (Text.size ahead)) = .repeated count := by
      rw [verdictsIn, hone] at hentry
      exact (Prod.mk.inj (List.mem_singleton.1 hentry)).2.symm
    have hvalue : piece (body ++ [';']) (layout.declaration (Text.size ahead)).value =
        layout.value := by
      simpa [htext] using piece_value ahead [] layout
    have hpatches : patchesIn (body ++ [';']) scopes =
        [⟨(layout.declaration (Text.size ahead)).value, copies count layout.value⟩] := by
      rw [patchesIn, verdictsIn, hone]
      simp [hverdict, expansion?, hvalue]
    obtain ⟨others, rfl⟩ := Nat.exists_eq_add_of_le' (sizeOf?_of_repeated hverdict).2
    obtain rfl : body = ahead ++ layout.written layout.value :=
      List.append_cancel_right (htext.trans (by simp [Layout.text_eq]))
    refine ⟨_, not_mem_expanded hlayout (others + 2) hbody, ?_,
      settles_expanded hlayout others hbody scopes⟩
    -- The one edit puts the copies where the value was.
    rw [hpatches]
    have hsingle := @Patch.Turns.single 0 _ _
      (ahead ++ (layout.ahead ++ (layout.size ++ layout.between))) layout.value
      (copies (others + 2) layout.value) (layout.behind ++ [';']) rfl rfl
    simpa [Layout.written, Layout.declaration, Nat.add_assoc] using hsingle
  · have hnone : ∀ entry ∈ verdictsIn (body ++ [';']) scopes, ∀ count,
        entry.2 ≠ .repeated count :=
      fun entry hentry count heq => hrepeated ⟨entry, hentry, count, heq⟩
    have hsettles := Settles.refl hnone
    refine ⟨body, hbody, ?_, hsettles⟩
    rw [hsettles.patchesIn_eq_nil (.refl scopes)]
    exact .keep _

/-- Expanding a text settles it. -/
theorem exists_turns_patchesIn (text : Text) (scopes : Scopes) :
    ∃ settled, Patch.Turns (patchesIn text scopes) 0 text settled ∧
      Settles scopes text settled := by
  induction text using Text.statements generalizing scopes with
  | rest rest hrest =>
    have hnone : ∀ entry ∈ verdictsIn rest scopes, ∀ count, entry.2 ≠ .repeated count := by
      have hdeclarations : declarationsIn rest = [] := statements_arrays.foundIn_eq_nil hrest
      rw [verdictsIn, hdeclarations]
      exact fun _ hentry => (List.not_mem_nil hentry).elim
    have hsettles := Settles.refl hnone
    refine ⟨rest, ?_, hsettles⟩
    rw [hsettles.patchesIn_eq_nil (.refl scopes)]
    exact .keep rest
  | statement body back hbody ih =>
    obtain ⟨body', hbody', hturns, hsettles⟩ := exists_settles_statement hbody scopes
    obtain ⟨back', hturns', hsettles'⟩ := ih (scopes.defineAll (constantsIn (body ++ [';'])))
    refine ⟨body' ++ ';' :: back', ?_, hsettles.append hbody hbody' hsettles'⟩
    rw [patchesIn_append hbody]
    have hboth := hturns.append (hturns'.shift (Text.size (body ++ [';'])))
    simpa using hboth

/-! ## The handler -/

/-- The edits of the handler are those that expand the text. -/
theorem forM_verdictsIn (text : Text) (scopes : Scopes) :
    (forM (verdictsIn text scopes) fun entry =>
        match expansion? text entry.1 entry.2 with
        | some value => Handling.replace entry.1.value value .anchored
        | none => pure () : Handling Scopes Unit) =
      forM (patchesIn text scopes) fun patch =>
        Handling.replace patch.span patch.text .anchored := by
  unfold patchesIn
  induction verdictsIn text scopes with
  | nil => rfl
  | cons entry later ih =>
    rw [List.forM_cons, ih, List.filterMap_cons]
    cases expansion? text entry.1 entry.2 with
    | none => rfl
    | some value => rfl

/-- The handler makes the edits that expand the text of its element, settles the text and defines
its constants. -/
theorem exists_weave_of_expand {visit : Visit} (htext : visit.text? = some text) (scopes : Scopes) :
    ∃ (revised? : Option Revision) (weave : Weave),
      (expand visit).carryOut visit scopes none =
        ((.ok ((verdictsIn text scopes).filterMap fun entry =>
          complaint? visit text entry.1 entry.2), scopes.defineAll (constantsIn text)), revised?) ∧
      revised?.getD (.ofText text) = weave.revision ∧ weave.revision.base = text ∧
      Settles scopes text weave.revision.current ∧
      weave.revision.edits.map (fun edit => (⟨edit.before, edit.inserted⟩ : Patch)) =
        patchesIn text scopes ∧
      (∀ strand ∈ weave.strands, strand.inside = .anchored) ∧
      (patchesIn text scopes = [] → revised? = none) := by
  obtain ⟨settled, hturns, hsettles⟩ := exists_turns_patchesIn text scopes
  obtain ⟨revised?, weave, hrun, hrevised, hbase, rfl, hpatches, hinside⟩ :=
    Handling.exists_weave_of_turns_text htext hturns .anchored scopes
  refine ⟨revised?, weave, ?_, hrevised, hbase, hsettles, hpatches, hinside, fun hnone => ?_⟩
  · rw [← forM_verdictsIn] at hrun
    unfold expand
    rw [htext]
    exact Handling.carryOut_bind _ hrun
  · rw [hnone] at hrun
    exact (Prod.mk.inj hrun).2.symm

/-- The handler settles the text of its element and defines the constants of the text. -/
theorem exists_carryOut_expand {visit : Visit} (htext : visit.text? = some text)
    (scopes : Scopes) :
    ∃ diagnostics revised?, (expand visit).carryOut visit scopes none =
        ((.ok diagnostics, scopes.defineAll (constantsIn text)), revised?) ∧
      Settles scopes text ((revised?.map Revision.current).getD text) ∧
      (patchesIn text scopes = [] → revised? = none) := by
  obtain ⟨revised?, weave, hrun, hrevised, -, hsettles, -, -, hidle⟩ :=
    exists_weave_of_expand htext scopes
  refine ⟨_, revised?, hrun, ?_, hidle⟩
  rw [← hrevised] at hsettles
  cases revised? with
  | none => exact hsettles
  | some revised => exact hsettles

end Retrace.ArrayInit
