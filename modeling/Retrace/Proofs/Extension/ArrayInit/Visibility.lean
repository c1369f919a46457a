import Retrace.Proofs.Extension.ArrayInit.Walk
import Retrace.Proofs.Session.Composition
import Retrace.Proofs.Session.Stages

/-!
# Which constants are visible

A size that is the name of a constant is looked up in the text of the declaration first, among the
constants that begin ahead of the size, and then among those that are known when the declaration is
visited (`sizeOf?_eq`). The latter are the constants of the model as a whole and those of templates
that have opened no scope, because their own path was blocked by an extension ahead; they stay for
all templates behind (`Session.sizeOf?_of_stages`). Constants of other templates are never known
outside of these.

## Main definitions

* `latest?`: the value of the last constant of a name.

## Main results

* `Session.sizeOf?_of_stages`: what sizes are looked up in, in every pipeline.
-/

namespace Retrace

namespace ArrayInit

/-! ## Constants ahead of a size -/

/-- The value of the last constant of a name. -/
def latest? (constants : List Constant) (name : Text) : Option Int :=
  (constants.reverse.find? (·.name = name)).map Constant.value

/-- An empty scope hides no constant. -/
theorem lookup?_scopesAt (blocked : List String) (path : Path) (ahead : List (Phase.Call Scopes))
    (name : Text) :
    (scopesAt blocked path ahead).lookup? name = latest? (lasting blocked ahead) name := by
  have hlookup : (Scopes.defineAll [] (lasting blocked ahead)).lookup? name =
      latest? (lasting blocked ahead) name := by
    rw [Scopes.lookup?_defineAll, Scopes.lookup?_nil, Option.or_none, latest?]
  -- The scope of a template is empty when its declarations are visited.
  unfold scopesAt around
  split
  · exact hlookup
  · exact hlookup

/-- A declaration in a statement begins ahead of its size, and its size ahead of the end. -/
theorem start_le_of_mem_declarationsIn {body : Text} (hbody : ';' ∉ body)
    {declaration : Declaration} (h : declaration ∈ declarationsIn (body ++ [';'])) :
    declaration.start ≤ declaration.size.start ∧
      declaration.size.start ≤ Text.size (body ++ [';']) := by
  rcases declarationsIn_statement hbody with hnone | ⟨ahead, layout, -, htext, hone⟩
  · rw [hnone] at h
    cases h
  · rw [hone] at h
    obtain rfl := List.mem_singleton.1 h
    have htake : Text.size (layout.qualifiers.takeWhile Text.isBlank ++
        layout.qualifiers.dropWhile Text.isBlank) = Text.size layout.qualifiers := by
      rw [List.takeWhile_append_dropWhile]
    simp only [htext, Layout.declaration, Layout.text, Layout.ahead, Layout.head, Text.size_append]
      at htake ⊢
    omega

/-- A statement with an array declaration defines no constant. -/
theorem constantsIn_eq_nil_of_mem {body : Text} (hbody : ';' ∉ body) {declaration : Declaration}
    (h : declaration ∈ declarationsIn (body ++ [';'])) : constantsIn (body ++ [';']) = [] := by
  rcases declarationsIn_statement hbody with hnone | ⟨ahead, layout, hlayout, htext, -⟩
  · rw [hnone] at h
    cases h
  · exact @constantsIn_eq_nil _ (ahead ++ (layout.ahead ++ (layout.size ++
      (layout.between ++ layout.value)))) layout hlayout hbody (by simp [htext, Layout.text])

/-- A constant begins ahead of an array declaration exactly if it begins ahead of its size: no
constant begins inside an array declaration. -/
theorem start_lt_iff {text : Text} {constant : Constant} {declaration : Declaration}
    (hconstant : constant ∈ constantsIn text) (hdeclaration : declaration ∈ declarationsIn text) :
    constant.start < declaration.start ↔ constant.start < declaration.size.start := by
  induction text using Text.statements generalizing constant declaration with
  | rest rest hrest =>
    rw [declarationsIn_eq_foundIn, statements_arrays.foundIn_eq_nil hrest] at hdeclaration
    cases hdeclaration
  | statement body back hbody ih =>
    rw [constantsIn_append hbody] at hconstant
    rw [declarationsIn_append hbody] at hdeclaration
    rcases List.mem_append.1 hdeclaration with hhere | hbehind
    · obtain ⟨hstart, hsize⟩ := start_le_of_mem_declarationsIn hbody hhere
      rcases List.mem_append.1 hconstant with hconstant | hconstant
      · rw [constantsIn_eq_nil_of_mem hbody hhere] at hconstant
        cases hconstant
      · -- The constant is behind the whole statement.
        obtain ⟨other, -, rfl⟩ := List.mem_map.1 hconstant
        simp only [Constant.shift]
        omega
    · obtain ⟨later, hlater, rfl⟩ := List.mem_map.1 hbehind
      rcases List.mem_append.1 hconstant with hconstant | hconstant
      · have hlt := start_lt_of_mem_constantsIn hbody hconstant
        simp only [Declaration.shift, Span.shift]
        omega
      · obtain ⟨other, hother, rfl⟩ := List.mem_map.1 hconstant
        have hiff := ih hother hlater
        simp only [Declaration.shift, Span.shift, Constant.shift]
        omega

/-- A size is a number, or the name of a constant: of the latest one that begins ahead of the size
in the same text, or else of the last one that is known. -/
theorem sizeOf?_eq (blocked : List String) (path : Path) (ahead : List (Phase.Call Scopes))
    {text : Text} {declaration : Declaration} (h : declaration ∈ declarationsIn text) :
    sizeOf? text (constantsIn text) (scopesAt blocked path ahead) declaration =
      match Text.numeral? 10 numberLimit (piece text declaration.size) with
      | some number => some (number : Int)
      | none =>
        (latest? ((constantsIn text).filter (·.start < declaration.size.start))
          (piece text declaration.size)).or
        (latest? (lasting blocked ahead) (piece text declaration.size)) := by
  have hown (name : Text) : latest? ((constantsIn text).filter
      (·.start < declaration.size.start)) name = ((constantsIn text).reverse.find? fun constant =>
        constant.start < declaration.start && constant.name = name).map Constant.value := by
    rw [latest?, ← List.filter_reverse, List.find?_filter]
    congr 1
    refine List.find?_congr fun constant hconstant => ?_
    have hiff := start_lt_iff (List.mem_reverse.1 hconstant) h
    simp [hiff]
  rw [sizeOf?]
  cases Text.numeral? 10 numberLimit (piece text declaration.size) with
  | some number => rfl
  | none =>
    dsimp only
    rw [value?_eq, lookup?_scopesAt, hown]

end ArrayInit

namespace Session

open ArrayInit

/-- In every pipeline, and whatever was reported ahead of it, the extension looks up the name of a
constant in the text of the declaration first, ahead of the size, and then among the constants
of the model as a whole and of those templates ahead whose own path is blocked. If no template is
at a blocked path, a constant of a template is never known outside of it. -/
theorem sizeOf?_of_stages {session : Session} {text : Text} {model : Model}
    (hformat : session.format.Lawful)
    (hread : session.format.read (splitPreamble text).2 = .ok model) {front back : List Stage}
    {stage : Stage} (hstages : session.stages model = front ++ stage :: back)
    (hpass : stage.pass = ArrayInit.phase.toPass) :
    (∀ path, path ∈ stage.before.blocked ↔ ∃ earlier ∈ front, earlier.Blocks path) ∧
    ∀ {node : NodeId} {path : Path}, model.At node path → model.kind node = .declaration →
      path.render ∉ stage.before.blocked →
      ∃ ahead behind written diagnostics state revised?,
        ArrayInit.phase.calls stage.before.model stage.before.blocked =
          ahead ++ ⟨⟨stage.before.model, node, path⟩, expand⟩ :: behind ∧
        stage.before.model.text? node = some written ∧
        (expand ⟨stage.before.model, node, path⟩).carryOut ⟨stage.before.model, node, path⟩
          (scopesAt stage.before.blocked path ahead) none = ((.ok diagnostics, state), revised?) ∧
        stage.model.text? node = some ((revised?.map Revision.current).getD written) ∧
        (∀ declaration ∈ declarationsIn written,
          sizeOf? written (constantsIn written) (scopesAt stage.before.blocked path ahead)
              declaration =
            match Text.numeral? 10 numberLimit (piece written declaration.size) with
            | some number => some (number : Int)
            | none =>
              (latest? ((constantsIn written).filter (·.start < declaration.size.start))
                (piece written declaration.size)).or
              (latest? (lasting stage.before.blocked ahead) (piece written declaration.size))) ∧
        ((∀ {node path}, model.At node path → model.kind node = .template →
            path.render ∉ stage.before.blocked) →
          lasting stage.before.blocked ahead =
            (ahead.filter (·.visit.path = globalPath)).flatMap (constantsOf ·.visit)) := by
  have hfirst := hformat.wellFormed_of_read hread
  -- The phase is run on the model that the stages ahead have left, which has the same shape.
  have hlinked := linked_passAll session.passes { model }
  rw [show Run.stages session.passes { model } = front ++ stage :: back from hstages] at hlinked
  obtain ⟨hfront, -⟩ := hlinked.of_append_cons
  have hchain : Chain model stage.before.layers stage.before.model := hfront.chain hfirst .nil
  have hmodel := hchain.wellFormed hfirst
  have hshape := Model.SameShape.of_retexts (hchain.retexts hfirst)
  refine ⟨fun path => by simpa using @Linked.mem_blocked _ _ _ hfront path,
    fun {node path} hat hkind hblocked => ?_⟩
  have hrun : (ArrayInit.phase.run stage.before.model stage.before.blocked).1 =
      .ok stage.outcome := by
    have hran := stage.ran
    rwa [hpass] at hran
  have hkind' := (hshape.kind_eq node).trans hkind
  obtain ⟨ahead, behind, progress, written, diagnostics, state, revised?, hcalls, hanswered,
      hwritten, hcarryOut, hafter⟩ :=
    exists_expand_of_run hmodel hrun stage.committed (hshape.at_of_at hat) hkind' hblocked
  rw [state_of_answered hmodel hcalls hkind' hanswered] at hcarryOut
  refine ⟨ahead, behind, written, diagnostics, state, revised?, hcalls, hwritten, hcarryOut, hafter,
    fun declaration hdeclaration => sizeOf?_eq _ _ _ hdeclaration, fun hopen => ?_⟩
  refine lasting_eq hmodel (fun {node path} hat hkind => ?_) fun made hmade => by
    rw [hcalls]
    exact List.mem_append_left _ hmade
  exact hopen (hshape.symm.at_of_at hat) ((hshape.kind_eq node).symm.trans hkind)

/-- A phase that reports every template as hopeless. -/
def gating : Pass :=
  Phase.toPass <| Phase.onEnter ⟨"gate", (), [], []⟩ .template [] fun visit =>
    pure [{ visit.diagnostic ⟨0, 0⟩ "m" with severity := .unrecoverable }]

/-- A session that runs this phase ahead of the expansion of arrays. -/
def gated : Session where
  extensions := [("gate", { id := "gate", passes := [gating] }),
    ("array-init", ArrayInit.extension)]

/-- Two templates, with a constant in the first and an array of that size in the second. -/
def gatedText : Text :=
  "<nta><template><declaration>const int M = 3;</declaration></template>".toList ++
    "<template><declaration>int q[M] = \x7b0\x7d;</declaration></template></nta>".toList

/-- The model that `gatedText` holds. -/
def gatedModel : Model where
  nodes := #[{ kind := .nta, children := [1, 3] },
    { kind := .template, parent := some 0, children := [2] },
    { kind := .declaration, parent := some 1, text := some "const int M = 3;".toList,
      slot := some ⟨⟨28, 44⟩, false, "const int M = 3;".toList⟩ },
    { kind := .template, parent := some 0, children := [4] },
    { kind := .declaration, parent := some 3, text := some "int q[M] = \x7b0\x7d;".toList,
      slot := some ⟨⟨92, 107⟩, false, "int q[M] = \x7b0\x7d;".toList⟩ }]
  document := some gatedText

/-- The constant of the first template is known in the second, as neither opens a scope. -/
theorem sizeOf?_of_stages_gated :
    gated.format.Lawful ∧ gated.format.read (splitPreamble gatedText).2 = .ok gatedModel ∧
      ∃ first stage, gated.stages gatedModel = [first, stage] ∧
        stage.pass = ArrayInit.phase.toPass ∧ stage.before.blocked =
          ["/nta/template[1]", "/nta/template[2]"] ∧
        ∃ ahead behind written, ArrayInit.phase.calls stage.before.model stage.before.blocked =
            ahead ++ ⟨⟨stage.before.model, 4, (templatePath (some 2)).child .declaration none⟩,
              expand⟩ :: behind ∧
          stage.before.model.text? 4 = some written ∧
          sizeOf? written (constantsIn written) (scopesAt stage.before.blocked
            ((templatePath (some 2)).child .declaration none) ahead) ⟨0, ⟨6, 7⟩, ⟨12, 13⟩⟩ =
              some 3 := by
  have hformat : gated.format.Lawful := Format.lawful_markup
  have hread : gated.format.read (splitPreamble gatedText).2 = .ok gatedModel := by
    rw [← Except.toOption_eq_some]
    decide +kernel
  obtain ⟨run, hrun⟩ : ∃ run, Run.passAll gated.passes { model := gatedModel } = (run, none) := by
    have hnone : (Run.passAll gated.passes { model := gatedModel }).2.isNone = true := by
      decide +kernel
    exact ⟨_, Prod.ext rfl (Option.isNone_iff_eq_none.1 hnone)⟩
  have hpasses : (gated.stages gatedModel).map (fun stage => (stage.extension, stage.pass)) =
      [("gate", gating), ("array-init", ArrayInit.phase.toPass)] := (linked_stages hrun).2
  obtain ⟨first, stage, hstages⟩ : ∃ first stage, gated.stages gatedModel = [first, stage] := by
    refine List.length_eq_two.1 ?_
    rw [← List.length_map, hpasses]
    rfl
  have hknown : (gated.stages gatedModel).map (fun stage =>
      (stage.before.blocked, stage.before.model.text? 4,
        (ArrayInit.phase.calls stage.before.model stage.before.blocked).map fun made =>
          (made.visit.node, lasting stage.before.blocked [made]))) =
      [([], some "int q[M] = \x7b0\x7d;".toList,
          [(1, []), (2, []), (1, []), (3, []), (4, []), (3, [])]),
        (["/nta/template[1]", "/nta/template[2]"], some "int q[M] = \x7b0\x7d;".toList,
          [(2, [⟨0, ['M'], 3⟩]), (4, [])])] := by
    decide +kernel
  simp only [hstages, List.map_cons, List.map_nil, List.cons.injEq, Prod.mk.injEq, and_true]
    at hpasses hknown
  obtain ⟨-, -, hpass⟩ := hpasses
  obtain ⟨-, hblocked, hfourth, hcalls⟩ := hknown
  have hat : gatedModel.At 4 ((templatePath (some 2)).child .declaration none) :=
    .child (.child .root (by decide +kernel : (3, templatePath (some 2)) ∈ _)) (by decide +kernel)
  obtain ⟨-, hsizes⟩ := @sizeOf?_of_stages _ _ _ hformat hread [first] [] stage hstages hpass
  obtain ⟨ahead, behind, written, _, _, _, hsplit, hwritten, -, -, hsize, -⟩ :=
    hsizes hat (by decide +kernel) (by rw [hblocked]; decide +kernel)
  obtain rfl := Option.some.inj (hfourth.symm.trans hwritten)
  -- The call for the declaration of the first template comes ahead.
  rw [hsplit, List.map_append, List.map_cons] at hcalls
  have hlasting : lasting stage.before.blocked ahead = [⟨0, ['M'], 3⟩] := by
    match ahead with
    | [] => simp at hcalls
    | [made] => simp_all
    | made :: second :: later => simp at hcalls
  refine ⟨hformat, hread, first, stage, hstages, hpass, hblocked, _, behind, _, hsplit, hwritten,
    ?_⟩
  rw [hsize ⟨0, ⟨6, 7⟩, ⟨12, 13⟩⟩ (by decide +kernel), hlasting]
  decide +kernel

/-- The array in the second template is expanded to the size that the first template defines. -/
theorem mapModel_gated :
    (gated.mapModel gatedText).1 = .ok
      ⟨"<nta><template><declaration>const int M = 3;</declaration></template>".toList ++
        "<template><declaration>int q[M] = \x7b0, 0, 0\x7d;</declaration></template></nta>".toList,
      [⟨"/nta/template[1]", ⟨⟨1, 1⟩, ⟨1, 1⟩⟩, "m", "", .unrecoverable, some ⟨"gate", "gate", 0⟩⟩,
        ⟨"/nta/template[2]", ⟨⟨1, 1⟩, ⟨1, 1⟩⟩, "m", "", .unrecoverable,
          some ⟨"gate", "gate", 0⟩⟩]⟩ := by
  rw [← Except.toOption_eq_some]
  decide +kernel

end Session

end Retrace
