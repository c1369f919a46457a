import Retrace.Proofs.Extension.ArrayInit.Walk
import Retrace.Proofs.Revision.Requests
import Retrace.Proofs.Revision.Woven

/-!
# Copies of a value

The phase replaces the value of every array declaration whose size is known and calls for it, and
says something about every size that is not known or not positive (`exists_expands`). The revision
it leaves behind is woven of the text that was kept and the copies (`Expands`): each copy is traced
back to the value that it was made of, and everything else to where it stood.

## Main definitions

* `request?`, `flaw?`: the edit that expands a declaration, and what is wrong with its size;
* `Expands`: a revision expands the array declarations of a text.

## Main results

* `exists_expands`: what the phase does to the declarations of a model.
-/

namespace Retrace.ArrayInit

/-! ## One copy among others -/

/-- Where a copy stands among all of them. -/
theorem exists_copies_eq (value : Text) : ∀ {count copy : Nat}, copy < count →
    ∃ ahead behind, copies count value = ahead ++ (value ++ behind) ∧
      Text.size ahead = copy * (Text.size value + 2)
  | 1, 0, _ => ⟨[], [], rfl, (Nat.zero_mul _).symm⟩
  | count + 2, 0, _ =>
    ⟨[], ',' :: ' ' :: copies (count + 1) value, rfl, (Nat.zero_mul _).symm⟩
  | count + 2, copy + 1, h => by
    obtain ⟨ahead, behind, hcopies, hsize⟩ := exists_copies_eq value (Nat.lt_of_succ_lt_succ h)
    refine ⟨value ++ ',' :: ' ' :: ahead, behind, by simp [copies_succ, hcopies], ?_⟩
    have hcomma : ','.utf8Size = 1 := rfl
    have hblank : ' '.utf8Size = 1 := rfl
    rw [Text.size_append, Text.size_cons, Text.size_cons, hsize, Nat.succ_mul]
    omega

/-- Several copies are longer than one. -/
theorem size_lt_size_copies (value : Text) {count : Nat} (h : 2 ≤ count) :
    Text.size value < Text.size (copies count value) := by
  obtain ⟨count, rfl⟩ := Nat.exists_eq_add_of_le' h
  have hcomma := Char.utf8Size_pos ','
  rw [copies_succ, Text.size_append, Text.size_cons]
  omega

/-! ## What becomes of a declaration -/

variable {text : Text} {scopes : Scopes} {declaration : Declaration}

/-- The edit that expands a declaration, if its size is at least two and not too large. -/
def request? (text : Text) (scopes : Scopes) (declaration : Declaration) : Option EditRequest :=
  (sizeOf? text (constantsIn text) scopes declaration).bind fun size =>
    if 2 ≤ size ∧ size ≤ 65536 then
      some ⟨declaration.value, copies size.toNat (piece text declaration.value), .anchored⟩
    else none

/-- Where and how badly the size of a declaration is wrong, if it is: it is not known, or it is not
positive. -/
def flaw? (text : Text) (scopes : Scopes) (declaration : Declaration) : Option (Range × Severity) :=
  match sizeOf? text (constantsIn text) scopes declaration with
  | none => some (.ofSpan text declaration.size, .recoverable)
  | some size => if size ≤ 0 then some (.ofSpan text declaration.size, .unrecoverable) else none

theorem request?_eq (text : Text) (scopes : Scopes) (declaration : Declaration) :
    request? text scopes declaration =
      (expansion? text declaration (verdictOf text (constantsIn text) scopes declaration)).map
        fun value => ⟨declaration.value, value, .anchored⟩ := by
  unfold request? verdictOf
  cases sizeOf? text (constantsIn text) scopes declaration with
  | none => rfl
  | some size =>
    have hlimit : sizeLimit = 65536 := rfl
    dsimp only [Option.bind_some]
    by_cases hpos : size ≤ 0
    · rw [if_neg (by omega), if_pos hpos]
      rfl
    · rw [if_neg hpos]
      by_cases hkept : size = 1 ∨ sizeLimit < size
      · rw [if_neg (by omega), if_pos hkept]
        rfl
      · rw [if_pos (by omega), if_neg hkept]
        rfl

theorem flaw?_eq {visit : Visit} (htext : visit.text? = some text) (scopes : Scopes)
    (declaration : Declaration) :
    flaw? text scopes declaration =
      (complaint? visit text declaration (verdictOf text (constantsIn text) scopes declaration)).map
        fun diagnostic => (diagnostic.range, diagnostic.severity) := by
  have hrange (message : String) : (visit.diagnostic declaration.size message).range =
      .ofSpan text declaration.size := by
    rw [Visit.diagnostic, htext]
    rfl
  unfold flaw? verdictOf
  cases sizeOf? text (constantsIn text) scopes declaration with
  | none => simp [complaint?, hrange]; rfl
  | some size =>
    dsimp only
    split
    · simp [complaint?, hrange]
    · split <;> rfl

/-- The edits of the handler are the ones that expand declarations. -/
theorem map_patchesIn (text : Text) (scopes : Scopes) :
    (patchesIn text scopes).map (fun patch => (⟨patch.span, patch.text, .anchored⟩ : EditRequest)) =
      (declarationsIn text).filterMap (request? text scopes) := by
  rw [patchesIn, verdictsIn, List.filterMap_map, List.map_filterMap]
  refine List.filterMap_congr fun declaration _ => ?_
  rw [request?_eq, Function.comp_apply, Option.map_map]
  rfl

/-- What the handler says is what is wrong with the sizes. -/
theorem map_complaints {visit : Visit} (htext : visit.text? = some text) (scopes : Scopes) :
    ((verdictsIn text scopes).filterMap fun entry => complaint? visit text entry.1 entry.2).map
        (fun diagnostic => (diagnostic.range, diagnostic.severity)) =
      (declarationsIn text).filterMap (flaw? text scopes) := by
  rw [verdictsIn, List.filterMap_map, List.map_filterMap]
  refine List.filterMap_congr fun declaration _ => ?_
  rw [flaw?_eq htext, Function.comp_apply]

/-- A declaration is expanded exactly if its size is a number from two on that is not too large. -/
theorem exists_of_request?_eq_some {request : EditRequest}
    (h : request? text scopes declaration = some request) :
    ∃ count : Nat, sizeOf? text (constantsIn text) scopes declaration = some (count : Int) ∧
      2 ≤ count ∧ count ≤ 65536 ∧
      request = ⟨declaration.value, copies count (piece text declaration.value), .anchored⟩ := by
  obtain ⟨size, hsize, h⟩ := Option.bind_eq_some_iff.1 h
  by_cases hbounds : 2 ≤ size ∧ size ≤ 65536
  · rw [if_pos hbounds] at h
    have hnat : ((size.toNat : Nat) : Int) = size := Int.toNat_of_nonneg (by omega)
    exact ⟨size.toNat, by rw [hsize, hnat], by omega, by omega, (Option.some.inj h).symm⟩
  · rw [if_neg hbounds] at h
    cases h

/-- Every match of the grammar is a declaration, which has a layout. -/
theorem exists_layout_of_mem_findAll {tree : ParseTree} (h : tree ∈ arrays.findAll text) :
    ∃ ahead behind, ∃ layout : Layout, layout.WellFormed ∧ text = ahead ++ (layout.text ++ behind) ∧
      declarationOf? tree = some (layout.declaration (Text.size ahead)) := by
  rw [Grammar.findAll_eq] at h
  obtain ⟨ahead, region, behind, htext, hreads⟩ := compiled_arrays.exists_reads_of_mem h
  obtain ⟨layout, hlayout, rfl, hread⟩ := exists_of_reads_array hreads
  exact ⟨ahead, behind, layout, hlayout, htext, hread⟩

theorem map_declarationOf? (text : Text) :
    (arrays.findAll text).map declarationOf? = (declarationsIn text).map some := by
  have hall : ∀ tree ∈ arrays.findAll text, ∃ declaration,
      declarationOf? tree = some declaration := by
    intro tree htree
    obtain ⟨ahead, behind, layout, -, -, hread⟩ := exists_layout_of_mem_findAll htree
    exact ⟨_, hread⟩
  rw [declarationsIn]
  generalize arrays.findAll text = trees at hall
  induction trees with
  | nil => rfl
  | cons tree later ih =>
    obtain ⟨⟨declaration, hdeclaration⟩, hlater⟩ := List.forall_mem_cons.1 hall
    rw [List.map_cons, List.filterMap_cons_some hdeclaration, List.map_cons, hdeclaration,
      ih hlater]

/-- No value is empty. -/
theorem piece_value_ne_nil (h : declaration ∈ declarationsIn text) :
    piece text declaration.value ≠ [] := by
  obtain ⟨tree, htree, hdeclaration⟩ := List.mem_filterMap.1 h
  obtain ⟨ahead, behind, layout, hlayout, rfl, hread⟩ := exists_layout_of_mem_findAll htree
  obtain rfl := Option.some.inj (hread.symm.trans hdeclaration)
  rw [piece_value]
  exact hlayout.value_ne

/-! ## Expanded texts -/

/-- The pieces of a revision that expands the array declarations of a text. -/
structure Expands (text : Text) (scopes : Scopes) (weave : Weave) : Prop where
  /-- This was the text before all edits. -/
  base_eq : weave.revision.base = text
  /-- The values of declarations are replaced by copies of them, in order, and nothing else is
  edited. -/
  requests_eq : weave.revision.edits.map Edit.request =
    (declarationsIn text).filterMap (request? text scopes)
  /-- A span of the text that was kept ahead of all copies, between those of two values or behind
  all of them is traced back to its own bytes. -/
  retraceSpan?_kept : ∀ {front back : List Strand} {start stop : Nat},
    weave.strands = front ++ back → start ≤ stop → stop ≤ Text.size (Weave.lead back weave.tail) →
    weave.revision.retraceSpan?
        ⟨Text.size (Strand.currents front) + start, Text.size (Strand.currents front) + stop⟩ =
      some ⟨Text.size (Strand.bases front) + start, Text.size (Strand.bases front) + stop⟩
  /-- What is put in the place of a value are copies of it, and each of them is traced back to the
  value. -/
  retraceSpan?_copy : ∀ {front back : List Strand} {strand : Strand},
    weave.strands = front ++ strand :: back →
    ∃ declaration ∈ declarationsIn text, ∃ count : Nat,
      sizeOf? text (constantsIn text) scopes declaration = some (count : Int) ∧
      2 ≤ count ∧ count ≤ 65536 ∧
      declaration.value = ⟨Text.size (Strand.bases front ++ strand.kept),
        Text.size (Strand.bases front ++ (strand.kept ++ strand.removed))⟩ ∧
      strand.removed = piece text declaration.value ∧
      strand.inserted = copies count strand.removed ∧
      ∀ copy < count, ∃ span : Span,
        span.start = Text.size (Strand.currents front ++ strand.kept) +
          copy * (Text.size strand.removed + 2) ∧
        span.length = Text.size strand.removed ∧
        piece weave.revision.current span = strand.removed ∧
        weave.revision.retraceSpan? span = some declaration.value

section Weaves

variable {weave : Weave} {front back : List Strand} {strand : Strand}

/-- What is put in the place of a value, if the edits are those that expand declarations. -/
theorem exists_of_strands_eq (hbase : weave.revision.base = text)
    (hrequests : weave.revision.edits.map Edit.request =
      (declarationsIn text).filterMap (request? text scopes))
    (hstrands : weave.strands = front ++ strand :: back) :
    ∃ declaration ∈ declarationsIn text, ∃ count : Nat,
      sizeOf? text (constantsIn text) scopes declaration = some (count : Int) ∧
      2 ≤ count ∧ count ≤ 65536 ∧
      declaration.value = ⟨Text.size (Strand.bases front ++ strand.kept),
        Text.size (Strand.bases front ++ (strand.kept ++ strand.removed))⟩ ∧
      strand.removed = piece text declaration.value ∧
      strand.inserted = copies count strand.removed := by
  obtain ⟨later, hedits⟩ := Weave.edits_append_cons front back strand
  have hmem : (strand.edit (Text.size (Strand.bases front))
      (Text.size (Strand.currents front))).request ∈ weave.revision.edits.map Edit.request := by
    rw [Weave.revision, hstrands, hedits]
    simp
  rw [hrequests] at hmem
  obtain ⟨declaration, hdeclaration, hrequest⟩ := List.mem_filterMap.1 hmem
  obtain ⟨count, hsize, htwo, hlimit, hmade⟩ := exists_of_request?_eq_some hrequest
  -- So the strand has removed the value of a declaration and inserted copies of it.
  simp only [Edit.request, Strand.edit, EditRequest.mk.injEq] at hmade
  obtain ⟨hrange, hinserted, -⟩ := hmade
  have hvalue : declaration.value = ⟨Text.size (Strand.bases front ++ strand.kept),
      Text.size (Strand.bases front ++ (strand.kept ++ strand.removed))⟩ := by
    rw [← hrange]
    simp only [Text.size_append, Nat.add_assoc]
  have hremoved : strand.removed = piece text declaration.value := by
    have hslice := @Text.slice_append (Strand.bases front ++ strand.kept)
      (Strand.bases back ++ weave.tail) strand.removed
    rw [hvalue, ← hbase]
    simpa [piece, Weave.revision, hstrands, Strand.bases_append] using hslice.symm
  exact ⟨declaration, hdeclaration, count, hsize, htwo, hlimit, hvalue, hremoved,
    by rw [hinserted, hremoved]⟩

/-- A revision whose edits are those that expand declarations expands them. -/
theorem expands_of_requests_eq (hbase : weave.revision.base = text)
    (hrequests : weave.revision.edits.map Edit.request =
      (declarationsIn text).filterMap (request? text scopes))
    (hinside : ∀ strand ∈ weave.strands, strand.inside = .anchored) :
    Expands text scopes weave := by
  -- No value is replaced by nothing, as two copies are longer than the value itself.
  have hfilled : ∀ strand ∈ weave.strands, strand.inserted ≠ [] := by
    intro strand hstrand hnil
    obtain ⟨front, back, hstrands⟩ := List.append_of_mem hstrand
    obtain ⟨_, -, count, -, htwo, -, -, -, hinserted⟩ :=
      exists_of_strands_eq hbase hrequests hstrands
    have hlt := size_lt_size_copies strand.removed htwo
    rw [← hinserted, hnil] at hlt
    exact absurd hlt (Nat.not_lt_zero _)
  obtain ⟨strands, tail⟩ := weave
  refine ⟨hbase, hrequests, fun {front back start stop} hstrands hle hstop => ?_,
    fun {front back strand} hstrands => ?_⟩
  · obtain rfl := hstrands
    exact Weave.retraceSpan?_lead (fun strand hstrand =>
      hfilled strand (List.mem_append_right _ hstrand)) hle hstop
  · obtain ⟨declaration, hdeclaration, count, hsize, htwo, hlimit, hvalue, hremoved, hinserted⟩ :=
      exists_of_strands_eq hbase hrequests hstrands
    obtain rfl := hstrands
    refine ⟨declaration, hdeclaration, count, hsize, htwo, hlimit, hvalue, hremoved, hinserted,
      fun copy hcopy => ?_⟩
    obtain ⟨ahead, behind, hcopies, hahead⟩ := exists_copies_eq strand.removed hcopy
    refine ⟨⟨Text.size (Strand.currents front ++ strand.kept) + Text.size ahead,
      Text.size (Strand.currents front ++ strand.kept) + Text.size (ahead ++ strand.removed)⟩,
      by rw [hahead], ?_, ?_, ?_⟩
    · simp only [Span.length, Text.size_append]
      omega
    · have hslice := @Text.slice_append (Strand.currents front ++ (strand.kept ++ ahead))
        (behind ++ (Strand.currents back ++ tail)) strand.removed
      simpa [piece, Weave.revision, Strand.currents_append, hinserted, hcopies, Nat.add_assoc]
        using hslice
    · -- The copies are longer than the value, so offsets in them count as its start or its end.
      have hlt := size_lt_size_copies strand.removed htwo
      rw [← hinserted] at hlt
      rw [hvalue]
      refine Weave.retraceSpan?_anchored (fun strand hstrand =>
        hfilled strand (by simp [hstrand])) (hinside strand (by simp)) (Nat.ne_of_gt hlt) ?_ ?_
      · have hne := mt Text.size_eq_zero_iff.1 (hremoved ▸ piece_value_ne_nil hdeclaration)
        rw [Text.size_append]
        omega
      · rw [hinserted, hcopies]
        simp only [Text.size_append]
        omega

/-- The edits of the handler are anchored, so they are the ones that were asked for. -/
theorem requests_eq_of_patches
    (hpatches : weave.revision.edits.map (fun edit => (⟨edit.before, edit.inserted⟩ : Patch)) =
      patchesIn text scopes)
    (hinside : ∀ strand ∈ weave.strands, strand.inside = .anchored) :
    weave.revision.edits.map Edit.request =
      (declarationsIn text).filterMap (request? text scopes) := by
  rw [← map_patchesIn, ← hpatches, List.map_map]
  refine List.map_congr_left fun edit hedit => ?_
  obtain ⟨strand, hstrand, -, hsame⟩ := Weave.exists_strand_of_mem_edits hedit
  rw [Edit.request, hsame, hinside strand hstrand]
  rfl

end Weaves

/-! ## The whole phase -/

/-- The phase succeeds for every model, whatever is blocked. In the text of every declaration that
is not blocked, it replaces the value of each match whose size is from two to the limit by as many
copies, and changes nothing else. It says one thing about each size that is not known or not
positive, and nothing else about the text. Each copy is traced back to the value, and what was kept
to where it stood. -/
theorem exists_expands {model : Model} (hmodel : model.WellFormed) (blocked : List String) :
    ∃ outcome after, (phase.run model blocked).1 = .ok outcome ∧
      outcome.layer.commit model = .ok after ∧
      ∀ {node : NodeId} {path : Path}, model.At node path → model.kind node = .declaration →
        path.render ∉ blocked →
        ∃ ahead behind text weave,
          phase.calls model blocked = ahead ++ ⟨⟨model, node, path⟩, expand⟩ :: behind ∧
          model.text? node = some text ∧
          (arrays.findAll text).map declarationOf? = (declarationsIn text).map some ∧
          Expands text (scopesAt blocked path ahead) weave ∧
          after.text? node = some weave.revision.current ∧
          (outcome.layer.get? path.render).getD (.ofText text) = weave.revision ∧
          (outcome.diagnostics.filter (·.path = path.render)).map
              (fun diagnostic => (diagnostic.range, diagnostic.severity)) =
            (declarationsIn text).filterMap (flaw? text (scopesAt blocked path ahead)) := by
  obtain ⟨outcome, hrun⟩ := reliable_phase.exists_run hmodel blocked
  have hdescribes := Phase.run_describes hmodel hrun
  obtain ⟨after, hcommit⟩ := hdescribes.exists_commit hmodel
  refine ⟨outcome, after, hrun, hcommit, fun {node path} hat hkind hblocked => ?_⟩
  obtain ⟨text, htext⟩ := Option.isSome_iff_exists.1
    ((hmodel.isSome_text node).trans (by rw [hkind]; rfl))
  obtain ⟨ahead, behind, progress, diagnostics, state, hcalls, hanswered, hcarryOut, hsaid⟩ :=
    about_phase.exists_reply_of_run hmodel hrun hat hblocked (registered_of_declaration hkind path)
  -- What the handler does there depends on the scopes, and these are known from the calls ahead.
  rw [state_of_answered hmodel hcalls hkind hanswered] at hcarryOut
  have hvisit : Visit.text? ⟨model, node, path⟩ = some text := htext
  obtain ⟨revised?, weave, hexpand, hrevised, hbase, -, hpatches, hinside, -⟩ :=
    exists_weave_of_expand hvisit (scopesAt blocked path ahead)
  rw [hexpand] at hcarryOut
  obtain ⟨hstate, rfl⟩ := Prod.mk.inj hcarryOut
  obtain rfl := Except.ok.inj (Prod.mk.inj hstate).1
  refine ⟨ahead, behind, text, weave, hcalls, htext, map_declarationOf? text,
    expands_of_requests_eq hbase (requests_eq_of_patches hpatches hinside) hinside, ?_, hrevised,
    by rw [hsaid, map_complaints hvisit]⟩
  -- The text behind the phase is the one that the revision has reached.
  rw [← hrevised]
  cases hget : outcome.layer.get? path.render with
  | none =>
    rw [hdescribes.text?_of_get?_eq_none hmodel hcommit hat hget, htext]
    rfl
  | some revision => exact hdescribes.text?_of_get? hmodel hcommit hat hget

/-- A document that declares an array. -/
def arrayText : Text :=
  "<nta><declaration>int a[3] = \x7b0\x7d;</declaration></nta>".toList

/-- The model that `arrayText` holds. -/
def arrayModel : Model where
  nodes := #[{ kind := .nta, children := [1] },
    { kind := .declaration, parent := some 0, text := some "int a[3] = \x7b0\x7d;".toList,
      slot := some ⟨⟨18, 33⟩, false, "int a[3] = \x7b0\x7d;".toList⟩ }]
  document := some arrayText

/-- The last of three copies is traced back to the value, and what is behind it to itself. -/
theorem exists_expands_array : Model.read arrayText = .ok arrayModel ∧
    ∃ outcome after, ∃ weave : Weave, (phase.run arrayModel []).1 = .ok outcome ∧
      outcome.layer.commit arrayModel = .ok after ∧
      after.text? 1 = some "int a[3] = \x7b0, 0, 0\x7d;".toList ∧
      (outcome.layer.get? "/nta/declaration").getD (.ofText "int a[3] = \x7b0\x7d;".toList) =
        weave.revision ∧
      weave.revision.retraceSpan? ⟨18, 19⟩ = some ⟨12, 13⟩ ∧
      weave.revision.retraceSpan? ⟨19, 21⟩ = some ⟨13, 15⟩ := by
  have hread : Model.read arrayText = .ok arrayModel := by
    rw [← Except.toOption_eq_some]
    decide +kernel
  obtain ⟨outcome, after, hrun, hcommit, hexpands⟩ :=
    exists_expands (Model.wellFormed_of_read hread) []
  have hat : arrayModel.At 1 (Path.root.child .declaration none) :=
    .child .root (by decide +kernel)
  obtain ⟨ahead, behind, text, ⟨strands, tail⟩, -, htext, -, hweave, hafter, hlayer, -⟩ :=
    hexpands hat (by decide +kernel) List.not_mem_nil
  obtain rfl : "int a[3] = \x7b0\x7d;".toList = text := Option.some.inj htext
  have hdeclared : declarationsIn "int a[3] = \x7b0\x7d;".toList = [⟨0, ⟨6, 7⟩, ⟨12, 13⟩⟩] := by
    decide +kernel
  have hsize (scopes : Scopes) : sizeOf? "int a[3] = \x7b0\x7d;".toList
      (constantsIn "int a[3] = \x7b0\x7d;".toList) scopes ⟨0, ⟨6, 7⟩, ⟨12, 13⟩⟩ = some 3 := by
    have hnumber : Text.numeral? 10 numberLimit (piece "int a[3] = \x7b0\x7d;".toList ⟨6, 7⟩) =
        some 3 := by
      decide +kernel
    rw [sizeOf?, hnumber]
    rfl
  -- There is one edit, so there is one strand.
  obtain ⟨strand, rfl⟩ : ∃ strand, strands = [strand] := by
    have hrequests := congrArg List.length hweave.requests_eq
    rw [hdeclared, List.filterMap_cons_some (by rw [request?, hsize]; rfl)] at hrequests
    match strands with
    | [] => cases hrequests
    | [strand] => exact ⟨strand, rfl⟩
    | _ :: _ :: _ => cases hrequests
  obtain ⟨_, hmem, count, hcount, -, -, hvalue, hremoved, hinserted, hcopies⟩ :=
    @Expands.retraceSpan?_copy _ _ _ hweave [] [] strand rfl
  rw [hdeclared] at hmem
  obtain rfl := List.mem_singleton.1 hmem
  obtain rfl : 3 = count := Int.ofNat.inj (Option.some.inj ((hsize _).symm.trans hcount))
  obtain ⟨kept, removed, inserted, inside⟩ := strand
  obtain rfl : removed = ['0'] := hremoved.trans (by decide +kernel)
  obtain rfl : inserted = "0, 0, 0".toList := hinserted
  have hbase : kept ++ ("0".toList ++ tail) = "int a[3] = \x7b".toList ++ "0\x7d;".toList := by
    simpa [Weave.revision] using hweave.base_eq
  have hkept : Text.size kept = 12 := (congrArg Span.start hvalue).symm
  obtain ⟨rfl, htail⟩ := Text.eq_of_append_eq_append hbase hkept
  obtain rfl : tail = "\x7d;".toList := by simpa using htail
  obtain ⟨⟨start, stop⟩, hstart, hlength, -, hcopy⟩ := hcopies 2 (by decide)
  obtain rfl : start = 18 := hstart
  obtain rfl : stop = 19 := by
    have hone : stop - 18 = 1 := hlength
    omega
  exact ⟨hread, outcome, after, _, hrun, hcommit, hafter, hlayer, hcopy,
    @Expands.retraceSpan?_kept _ _ _ hweave [_] [] 0 2 rfl (by decide) (Nat.le_refl 2)⟩

end Retrace.ArrayInit
