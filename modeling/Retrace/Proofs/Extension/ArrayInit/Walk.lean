import Retrace.Proofs.Extension.ArrayInit.Expansion
import Retrace.Proofs.Phase.About

/-!
# Expanding a whole model

The phase is called for the declarations of the model as a whole first and for one template after
the other then: a template opens a scope, has its declarations visited and closes the scope again
(`exists_segments`). Only a template at a blocked path opens no scope, although its declarations are
visited. So the scopes at a declaration are known (`state_of_answered`): those of the model as a
whole, to which the constants of templates at blocked paths come, and the empty one of the template,
if it has opened one.

In a second walk no constant is known that was not known in the first, even if some elements are
blocked that were not, as long as the templates are not. As their texts are settled, nothing is
expanded any more (`settles_phase`).

## Main definitions

* `globalPath`: the path of the declarations of the model as a whole;
* `IsDeclared`, `IsTemplate`: the calls for the declarations in an element and those in a template;
* `Outside`: there is no scope of a template around declarations at a path;
* `lasting`: the constants that are known from calls on.
-/

namespace Retrace.ArrayInit

open Phase

/-! ## What the handlers do -/

/-- The constants that the text of an element defines. -/
def constantsOf (visit : Visit) : List Constant :=
  (visit.text?.map constantsIn).getD []

/-- If the handler for declarations succeeds, it has defined the constants of the text, and what it
has to say is about the element. -/
theorem of_carryOut_expand {visit : Visit} {scopes scopes' : Scopes}
    {revision? revised? : Option Revision} {diagnostics : List Diagnostic}
    (h : (expand visit).carryOut visit scopes revision? = ((.ok diagnostics, scopes'), revised?)) :
    scopes' = scopes.defineAll (constantsOf visit) ∧
      ∀ diagnostic ∈ diagnostics, diagnostic.path = visit.address := by
  unfold expand at h
  unfold constantsOf
  cases htext : visit.text? with
  | none =>
    rw [htext] at h
    obtain ⟨hdiagnostics, hscopes⟩ := Prod.mk.inj (Prod.mk.inj h).1
    obtain rfl := Except.ok.inj hdiagnostics
    exact ⟨hscopes.symm, nofun⟩
  | some text =>
    rw [htext] at h
    obtain ⟨_, _, _, hget, h⟩ := Handling.exists_of_carryOut_bind h
    obtain ⟨hgot, hstate⟩ := Prod.mk.inj (Prod.mk.inj hget).1
    obtain rfl := Except.ok.inj hgot
    subst hstate
    obtain ⟨_, middle, _, hedits, h⟩ := Handling.exists_of_carryOut_bind h
    -- Edits leave the scopes alone; only the last step of the handler defines constants.
    have hmiddle : middle = scopes := by
      refine Handling.state_of_carryOut_forM (fun entry => ?_) hedits
      cases hvalue : expansion? text entry.1 entry.2 with
      | none => exact Or.inl (by simp only [hvalue])
      | some value => exact Or.inr ⟨entry.1.value, value, .anchored, by simp only [hvalue]⟩
    subst hmiddle
    obtain ⟨hdiagnostics, hscopes⟩ := Prod.mk.inj (Prod.mk.inj h).1
    obtain rfl := Except.ok.inj hdiagnostics
    refine ⟨hscopes.symm, fun diagnostic hdiagnostic => ?_⟩
    obtain ⟨⟨declaration, verdict⟩, -, hcomplaint⟩ := List.mem_filterMap.1 hdiagnostic
    cases verdict with
    | repeated | kept => cases hcomplaint
    | unknownSize | badSize =>
      obtain rfl := Option.some.inj hcomplaint
      rfl

/-- The handlers for templates change the scopes only, the one for declarations looks at the text of
its element only. -/
theorem about_phase : phase.About .declaration where
  isLocal := by
    intro registration hmem hkind
    rcases List.mem_cons.1 hmem with rfl | hmem
    · cases hkind
    · rcases List.mem_cons.1 hmem with rfl | hmem
      -- The handler for declarations asks for the text and for the address, and for nothing else.
      · refine ⟨fun {visit visit'} hnode hpath htext => ?_,
          fun hcarried => (of_carryOut_expand hcarried).2⟩
        have hcomplaint : complaint? visit' = complaint? visit := by
          funext text declaration verdict
          have hdiagnostic (span : Span) (message : String) :
              visit'.diagnostic span message = visit.diagnostic span message := by
            rw [Visit.diagnostic, htext, Visit.address, hpath]
            rfl
          cases verdict <;> simp only [complaint?, hdiagnostic]
        show expand visit' = expand visit
        unfold expand
        rw [htext, hcomplaint]
      · obtain rfl := List.mem_singleton.1 hmem
        cases hkind
  exists_changing := by
    intro registration hmem hkind
    rcases List.mem_cons.1 hmem with rfl | hmem
    · exact ⟨fun scopes => [] :: scopes, rfl⟩
    · rcases List.mem_cons.1 hmem with rfl | hmem
      · exact absurd rfl hkind
      · obtain rfl := List.mem_singleton.1 hmem
        exact ⟨List.tail, rfl⟩

/-! ## The calls -/

variable {model : Model} {blocked : List String} {bound : Nat} {id : NodeId} {path : Path}

theorem registered_enter (node : NodeId) (path : Path) :
    registered model phase.enter node path =
      if model.kind node = .template then [⟨⟨model, node, path⟩, openScope⟩]
      else if model.kind node = .declaration then [⟨⟨model, node, path⟩, expand⟩] else [] := by
  unfold registered
  cases model.kind node <;> rfl

theorem registered_leave (node : NodeId) (path : Path) :
    registered model phase.leave node path =
      if model.kind node = .template then [⟨⟨model, node, path⟩, closeScope⟩] else [] := by
  unfold registered
  cases model.kind node <;> rfl

/-- The calls in an element and those inside it, at most `bound` levels deep. -/
def callsFrom (model : Model) (blocked : List String) (bound : Nat) (id : NodeId) (path : Path) :
    List (Call Scopes) :=
  (model.traceFrom bound id path).flatMap
    (WalkStep.visit (callsAt model blocked phase.enter) (callsAt model blocked phase.leave))

/-- The calls in the children of one kind. -/
def callsInside (model : Model) (blocked : List String) (bound : Nat) (id : NodeId) (path : Path)
    (kind : NodeKind) : List (Call Scopes) :=
  ((model.childrenOfKind id kind).mapIdx fun index child =>
    (child, path.child kind (if kind.repeats then some (index + 1) else none))).flatMap
      fun (child, childPath) => callsFrom model blocked bound child childPath

theorem callsFrom_succ (bound : Nat) (id : NodeId) (path : Path) :
    callsFrom model blocked (bound + 1) id path = callsAt model blocked phase.enter id path ++
      (model.kind id).childKinds.flatMap (callsInside model blocked bound id path) ++
      callsAt model blocked phase.leave id path := by
  rw [callsFrom, Model.traceFrom, Model.childPaths]
  simp only [List.flatMap_append, List.flatMap_cons, List.flatMap_nil, List.append_nil,
    List.flatMap_assoc, List.cons_append, WalkStep.visit, List.append_assoc]
  rfl

/-- At kinds for which no handlers are registered, nothing is called. -/
theorem callsAt_eq_nil (htemplate : model.kind id ≠ .template)
    (hdeclaration : model.kind id ≠ .declaration) :
    callsAt model blocked phase.enter id path = [] ∧
      callsAt model blocked phase.leave id path = [] := by
  rw [callsAt, callsAt, registered_enter, registered_leave, if_neg htemplate, if_neg htemplate,
    if_neg hdeclaration]
  exact ⟨ite_self _, ite_self _⟩

/-- What is called in the children of a kind is what is called in each of them. -/
theorem mem_callsInside {kind : NodeKind} {made : Call Scopes}
    (h : made ∈ callsInside model blocked bound id path kind) :
    ∃ child childPath, model.kind child = kind ∧
      made ∈ callsFrom model blocked bound child childPath := by
  obtain ⟨child, hchild, hmade⟩ := List.mem_flatMap.1 h
  obtain ⟨index, hindex, rfl⟩ := List.mem_mapIdx.1 hchild
  exact ⟨_, _, (Model.mem_childrenOfKind.1 (List.getElem_mem hindex)).2, hmade⟩

/-- Apart from the model as a whole and its templates, elements have no declarations inside. -/
theorem callsFrom_eq_nil (hroot : model.kind id ≠ .nta) (htemplate : model.kind id ≠ .template)
    (hdeclaration : model.kind id ≠ .declaration) : callsFrom model blocked bound id path = [] := by
  induction bound generalizing id path with
  | zero => rfl
  | succ bound ih =>
    -- None of these kinds stands inside an element of any other kind.
    have hkinds : ∀ kind ∈ NodeKind.all, kind ≠ .nta → kind ≠ .template → kind ≠ .declaration →
        ∀ child ∈ kind.childKinds, child ≠ .nta ∧ child ≠ .template ∧ child ≠ .declaration := by
      decide
    have hinside : (model.kind id).childKinds.flatMap (callsInside model blocked bound id path) =
        [] := by
      refine List.flatMap_eq_nil_iff.2 fun kind hkind => List.eq_nil_iff_forall_not_mem.2 ?_
      intro made hmade
      obtain ⟨child, childPath, rfl, hmade'⟩ := mem_callsInside hmade
      obtain ⟨hroot', htemplate', hdeclaration'⟩ :=
        hkinds _ (NodeKind.mem_all _) hroot htemplate hdeclaration _ hkind
      rw [ih hroot' htemplate' hdeclaration'] at hmade'
      cases hmade'
    obtain ⟨henter, hleave⟩ := callsAt_eq_nil htemplate hdeclaration
    rw [callsFrom_succ, hinside, henter, hleave]
    rfl

theorem callsInside_eq_nil {kind : NodeKind} (hroot : kind ≠ .nta) (htemplate : kind ≠ .template)
    (hdeclaration : kind ≠ .declaration) :
    callsInside model blocked bound id path kind = [] := by
  refine List.eq_nil_iff_forall_not_mem.2 fun made hmade => ?_
  obtain ⟨child, childPath, rfl, hmade'⟩ := mem_callsInside hmade
  rw [callsFrom_eq_nil hroot htemplate hdeclaration] at hmade'
  cases hmade'

/-- The calls for the declarations in an element: there is one, or none. -/
def IsDeclared (model : Model) (path : Path) (declared : List (Call Scopes)) : Prop :=
  declared = [] ∨ ∃ node, model.kind node = .declaration ∧
    declared = [⟨⟨model, node, path.child .declaration none⟩, expand⟩]

theorem isDeclared_callsInside (hmodel : model.WellFormed) :
    IsDeclared model path (callsInside model blocked bound id path .declaration) := by
  have hmem {child : NodeId} : child ∈ model.childrenOfKind id .declaration ↔
      child ∈ (model.node id).children ∧ model.kind child = .declaration :=
    Model.mem_childrenOfKind
  have hnodup : (model.childrenOfKind id .declaration).Nodup := (hmodel.nodup id).filter _
  unfold callsInside
  generalize model.childrenOfKind id .declaration = children at hmem hnodup
  match children with
  | [] => exact Or.inl rfl
  | [child] =>
    have hkind : model.kind child = .declaration := (hmem.1 (List.mem_singleton_self child)).2
    cases bound with
    | zero => exact Or.inl rfl
    | succ bound =>
      show IsDeclared model path (callsFrom model blocked (bound + 1) child _ ++ [])
      rw [List.append_nil, callsFrom_succ, callsAt, callsAt, registered_enter, registered_leave,
        hkind]
      by_cases hblocked : (path.child .declaration none).render ∈ blocked
      · exact Or.inl (by simp [hblocked, NodeKind.repeats, NodeKind.childKinds])
      · exact Or.inr ⟨child, hkind, by simp [hblocked, NodeKind.repeats, NodeKind.childKinds]⟩
  | first :: second :: others =>
    -- No element has two declarations inside.
    obtain ⟨hfirst, hkind⟩ := hmem.1 List.mem_cons_self
    obtain ⟨hsecond, hkind'⟩ := hmem.1 (List.mem_cons_of_mem _ List.mem_cons_self)
    have heq := hmodel.single hfirst hsecond (hkind.trans hkind'.symm) (by rw [hkind]; rfl)
    simp [heq] at hnodup

/-- The path of a template. -/
def templatePath (index : Option Nat) : Path :=
  Path.root.child .template index

/-- The calls in a template. -/
inductive IsTemplate (model : Model) (blocked : List String) : List (Call Scopes) → Prop
  /-- Its scope is opened, its declarations are visited, and the scope is closed. -/
  | bracketed {node : NodeId} {index : Option Nat} {declared : List (Call Scopes)} :
      model.kind node = .template → (templatePath index).render ∉ blocked →
      IsDeclared model (templatePath index) declared →
      IsTemplate model blocked (⟨⟨model, node, templatePath index⟩, openScope⟩ ::
        (declared ++ [⟨⟨model, node, templatePath index⟩, closeScope⟩]))
  /-- At a blocked path, its declarations are visited without a scope. -/
  | bare {node : NodeId} {index : Option Nat} {declared : List (Call Scopes)} :
      model.At node (templatePath index) → model.kind node = .template →
      (templatePath index).render ∈ blocked → IsDeclared model (templatePath index) declared →
      IsTemplate model blocked declared

theorem isTemplate_callsFrom (hmodel : model.WellFormed) {index : Option Nat}
    (hat : model.At id (templatePath index)) (hkind : model.kind id = .template) :
    IsTemplate model blocked (callsFrom model blocked (bound + 1) id (templatePath index)) := by
  have hdeclared := @isDeclared_callsInside _ blocked bound id (templatePath index) hmodel
  have hplain (kind : NodeKind) (h : kind ≠ .nta ∧ kind ≠ .template ∧ kind ≠ .declaration) :
      callsInside model blocked bound id (templatePath index) kind = [] :=
    callsInside_eq_nil h.1 h.2.1 h.2.2
  rw [callsFrom_succ, callsAt, callsAt, registered_enter, registered_leave, hkind]
  by_cases hblocked : (templatePath index).render ∈ blocked
  · simpa [NodeKind.childKinds, hplain, hblocked] using .bare hat hkind hblocked hdeclared
  · simpa [NodeKind.childKinds, hplain, hblocked] using .bracketed hkind hblocked hdeclared

theorem exists_callsInside_template (hmodel : model.WellFormed) :
    ∃ segments,
      callsInside model blocked bound Model.root .root .template = List.flatten segments ∧
      ∀ segment ∈ segments, IsTemplate model blocked segment := by
  cases bound with
  | zero =>
    refine ⟨[], List.flatMap_eq_nil_iff.2 fun _ _ => rfl, nofun⟩
  | succ bound =>
    refine ⟨_, List.flatMap_def, List.forall_mem_map.2 fun child hchild => ?_⟩
    have hmem : child ∈ model.childPaths Model.root .root := by
      rw [Model.childPaths, hmodel.kind_root]
      exact List.mem_flatMap.2 ⟨.template, by decide, hchild⟩
    obtain ⟨index, hindex, rfl⟩ := List.mem_mapIdx.1 hchild
    have hkind := (Model.mem_childrenOfKind.1 (List.getElem_mem hindex)).2
    exact isTemplate_callsFrom hmodel (.child .root hmem) hkind

/-- The phase is called for the declarations of the model as a whole and then for one template after
the other. -/
theorem exists_segments (hmodel : model.WellFormed) :
    ∃ declared segments, phase.calls model blocked = declared ++ List.flatten segments ∧
      IsDeclared model .root declared ∧ ∀ segment ∈ segments, IsTemplate model blocked segment := by
  obtain ⟨bound, hsize⟩ := Nat.exists_eq_add_of_le' hmodel.pos
  obtain ⟨segments, hsegments, htemplates⟩ := @exists_callsInside_template _ blocked bound hmodel
  refine ⟨_, segments, ?_, @isDeclared_callsInside _ blocked bound Model.root .root hmodel,
    htemplates⟩
  obtain ⟨henter, hleave⟩ := @callsAt_eq_nil model blocked Model.root .root
    (by rw [hmodel.kind_root]; decide) (by rw [hmodel.kind_root]; decide)
  have hplain (kind : NodeKind) (h : kind ≠ .nta ∧ kind ≠ .template ∧ kind ≠ .declaration) :
      callsInside model blocked bound Model.root .root kind = [] :=
    callsInside_eq_nil h.1 h.2.1 h.2.2
  show callsFrom model blocked model.size Model.root .root = _
  rw [hsize, callsFrom_succ, henter, hleave, hmodel.kind_root]
  simp [NodeKind.childKinds, hplain, hsegments]

/-- The path of the declarations of the model as a whole. -/
def globalPath : Path :=
  Path.root.child .declaration none

/-- What is called in a template is not about the declarations of the model as a whole. -/
theorem path_ne_globalPath {segment : List (Call Scopes)} (h : IsTemplate model blocked segment)
    {made : Call Scopes} (hmade : made ∈ segment) : made.visit.path ≠ globalPath := by
  have hbracket (index : Option Nat) : templatePath index ≠ globalPath := by
    simp [templatePath, globalPath, Path.child]
  have hinside {index : Option Nat} {declared : List (Call Scopes)}
      (hdeclared : IsDeclared model (templatePath index) declared) (hmade : made ∈ declared) :
      made.visit.path ≠ globalPath := by
    rcases hdeclared with rfl | ⟨node, -, rfl⟩
    · cases hmade
    · obtain rfl := List.mem_singleton.1 hmade
      simp [templatePath, globalPath, Path.child]
  cases h with
  | bracketed hkind hblocked hdeclared =>
    rcases List.mem_cons.1 hmade with rfl | hmade
    · exact hbracket _
    · rcases List.mem_append.1 hmade with hmade | hmade
      · exact hinside hdeclared hmade
      · obtain rfl := List.mem_singleton.1 hmade
        exact hbracket _
  | bare hat hkind hblocked hdeclared => exact hinside hdeclared hmade

/-! ## Scopes -/

/-- There is no scope of a template around declarations at a path: they are those of the model as a
whole, or the template is at a blocked path. -/
def Outside (blocked : List String) (path : Path) : Prop :=
  path = globalPath ∨ path.outer.render ∈ blocked

instance (blocked : List String) (path : Path) : Decidable (Outside blocked path) :=
  inferInstanceAs (Decidable (_ ∨ _))

/-- The constants that are known from calls on: those that were defined outside of the scopes of
templates. -/
def lasting (blocked : List String) (calls : List (Call Scopes)) : List Constant :=
  (calls.filter fun made => Outside blocked made.visit.path).flatMap (constantsOf ·.visit)

/-- The scopes at a path if there are these scopes between templates. -/
def around (blocked : List String) (path : Path) (scopes : Scopes) : Scopes :=
  if Outside blocked path then scopes else [] :: scopes

/-- The scopes at declarations at a path behind these calls. -/
def scopesAt (blocked : List String) (path : Path) (calls : List (Call Scopes)) : Scopes :=
  around blocked path (Scopes.defineAll [] (lasting blocked calls))

@[simp] theorem lasting_append (front back : List (Call Scopes)) :
    lasting blocked (front ++ back) = lasting blocked front ++ lasting blocked back := by
  rw [lasting, List.filter_append, List.flatMap_append]
  rfl

/-- Templates have no text. -/
theorem constantsOf_eq_nil {visit : Visit} (hmodel : visit.model.WellFormed)
    (hkind : visit.model.kind visit.node = .template) : constantsOf visit = [] := by
  have htext : visit.text? = none := hmodel.text?_eq_none (by rw [hkind]; rfl)
  rw [constantsOf, htext]
  rfl

/-- The constants of the declarations in an element are known from them on if there is no scope
around. -/
theorem lasting_of_isDeclared {declared : List (Call Scopes)} (h : IsDeclared model path declared) :
    lasting blocked declared =
      if Outside blocked (path.child .declaration none) then declared.flatMap (constantsOf ·.visit)
      else [] := by
  rcases h with rfl | ⟨node, -, rfl⟩
  · simp [lasting]
  · by_cases houtside : Outside blocked (path.child .declaration none) <;>
      simp [lasting, houtside]

theorem outside_inside_iff (index : Option Nat) :
    Outside blocked ((templatePath index).child .declaration none) ↔
      (templatePath index).render ∈ blocked := by
  have hne : (templatePath index).child .declaration none ≠ globalPath := by
    simp [templatePath, globalPath, Path.child]
  rw [Outside, Path.outer_child, or_iff_right hne]

/-- No constant of a template is known behind its scope. -/
theorem lasting_bracketed (hmodel : model.WellFormed) {node : NodeId} {index : Option Nat}
    {declared : List (Call Scopes)} (hkind : model.kind node = .template)
    (hblocked : (templatePath index).render ∉ blocked)
    (hdeclared : IsDeclared model (templatePath index) declared) :
    lasting blocked (⟨⟨model, node, templatePath index⟩, openScope⟩ ::
      (declared ++ [⟨⟨model, node, templatePath index⟩, closeScope⟩])) = [] := by
  have hinside : lasting blocked declared = [] := by
    rw [lasting_of_isDeclared hdeclared, if_neg ((outside_inside_iff index).not.2 hblocked)]
  have hbracket (handler : Handler Scopes) :
      lasting blocked [⟨⟨model, node, templatePath index⟩, handler⟩] = [] := by
    refine List.flatMap_eq_nil_iff.2 fun made hmade => ?_
    obtain rfl := List.mem_singleton.1 (List.mem_of_mem_filter hmade)
    exact constantsOf_eq_nil hmodel hkind
  rw [← List.singleton_append, lasting_append, lasting_append, hinside, hbracket, hbracket]
  rfl

section States

variable {progress reached : Progress Scopes} {declared segment : List (Call Scopes)}

/-- The declarations in an element define their constants. -/
theorem state_of_isDeclared (h : IsDeclared model path declared)
    (hanswered : Answered progress declared reached) :
    reached.state = progress.state.defineAll (declared.flatMap (constantsOf ·.visit)) := by
  rcases h with rfl | ⟨node, -, rfl⟩
  · rw [hanswered.eq_of_nil]
    rfl
  · obtain ⟨diagnostics, middle, revision?, hcarried, hrest⟩ := hanswered.of_cons
    rw [hrest.eq_of_nil, (of_carryOut_expand hcarried).1]
    simp

/-- A template that opens a scope leaves the scopes as they were, another one defines its constants
there. -/
theorem state_of_isTemplate (hmodel : model.WellFormed) (h : IsTemplate model blocked segment)
    (hanswered : Answered progress segment reached) :
    reached.state = progress.state.defineAll (lasting blocked segment) := by
  cases h with
  | bracketed hkind hblocked hdeclared =>
    rw [lasting_bracketed hmodel hkind hblocked hdeclared]
    obtain ⟨_, opened, _, hopen, hanswered⟩ := hanswered.of_cons
    obtain ⟨inner, hinside, hanswered⟩ := hanswered.of_append
    obtain ⟨_, closed, _, hclose, hrest⟩ := hanswered.of_cons
    obtain rfl := hrest.eq_of_nil
    have hopened : [] :: progress.state = opened.state := (Prod.mk.inj (Prod.mk.inj hopen).1).2
    have hclosed : inner.state.tail = reached.state := (Prod.mk.inj (Prod.mk.inj hclose).1).2
    rw [← hclosed, state_of_isDeclared hdeclared hinside, ← hopened, Scopes.tail_defineAll]
    rfl
  | bare hat hkind hblocked hdeclared =>
    rw [lasting_of_isDeclared hdeclared, if_pos ((outside_inside_iff _).2 hblocked)]
    exact state_of_isDeclared hdeclared hanswered

theorem state_of_flatten (hmodel : model.WellFormed) {segments : List (List (Call Scopes))}
    (h : ∀ segment ∈ segments, IsTemplate model blocked segment)
    (hanswered : Answered progress segments.flatten reached) :
    reached.state = progress.state.defineAll (lasting blocked segments.flatten) := by
  induction segments generalizing progress with
  | nil => rw [hanswered.eq_of_nil]; rfl
  | cons segment later ih =>
    obtain ⟨hsegment, hlater⟩ := List.forall_mem_cons.1 h
    obtain ⟨middle, hfirst, hrest⟩ := Answered.of_append hanswered
    rw [ih hlater hrest, state_of_isTemplate hmodel hsegment hfirst, List.flatten_cons,
      lasting_append, Scopes.defineAll_append]

end States

theorem ne_of_kind {node other : NodeId} (h : model.kind node = .declaration)
    (hother : model.kind other = .template) : node ≠ other := by
  rintro rfl
  rw [h] at hother
  cases hother

/-- What stands in lists that are put one behind the other stands in one of them. -/
theorem exists_of_flatten_eq {α : Type} {lists : List (List α)} {ahead back : List α} {a : α}
    (h : lists.flatten = ahead ++ a :: back) :
    ∃ front list later inside behind, lists = front ++ list :: later ∧
      list = inside ++ a :: behind ∧ ahead = front.flatten ++ inside := by
  rcases List.flatten_eq_append_iff.1 h with ⟨front, others, rfl, rfl, hothers⟩ |
    ⟨front, inside, c, behind, later, rfl, rfl, hback⟩
  · -- It begins one of the lists; lists without elements may come ahead of that one.
    obtain ⟨empty, behind, later, rfl, hempty, -⟩ := List.flatten_eq_cons_iff.1 hothers.symm
    refine ⟨front ++ empty, a :: behind, later, [], behind, by simp, rfl, ?_⟩
    rw [List.flatten_append, List.flatten_eq_nil_iff.2 hempty]
    simp
  · obtain ⟨rfl, -⟩ := List.cons.inj hback
    exact ⟨front, inside ++ a :: behind, later, inside, behind, rfl, rfl, rfl⟩

/-- There is one call for the declarations in an element at most. -/
theorem IsDeclared.of_append {declared ahead behind : List (Call Scopes)} {made : Call Scopes}
    (h : IsDeclared model path declared) (hsplit : declared = ahead ++ made :: behind) :
    ahead = [] ∧ behind = [] ∧ made.visit.path = path.child .declaration none := by
  rcases h with rfl | ⟨node, -, rfl⟩
  · simp at hsplit
  · obtain ⟨rfl, hone⟩ | ⟨-, hnone⟩ := List.append_eq_singleton_iff.1 hsplit.symm
    · obtain ⟨rfl, rfl⟩ := List.cons.inj hone
      exact ⟨rfl, rfl, rfl⟩
    · cases hnone

/-- At the declarations of a template, nothing was called in it but what opens its scope. -/
theorem state_of_inside (hmodel : model.WellFormed) {segment inside behind : List (Call Scopes)}
    {made : Call Scopes} (h : IsTemplate model blocked segment)
    (hsplit : segment = inside ++ made :: behind)
    (hkind : model.kind made.visit.node = .declaration) {progress reached : Progress Scopes}
    (hanswered : Answered progress inside reached) :
    lasting blocked inside = [] ∧
      reached.state = around blocked made.visit.path progress.state := by
  cases h with
  | @bracketed node index declared htemplate hblocked hdeclared =>
    have hbracket := ne_of_kind hkind htemplate
    -- The call is neither the first nor the last.
    obtain ⟨rest, rfl, hinner⟩ := (List.cons_eq_append_iff.1 hsplit).resolve_left fun h => by
      obtain rfl := (List.cons.inj h.2).1
      exact hbracket rfl
    obtain ⟨others, hmiddle, -⟩ : ∃ others, declared = rest ++ made :: others ∧
        behind = others ++ [⟨⟨model, node, templatePath index⟩, closeScope⟩] := by
      rcases List.append_eq_append_iff.1 hinner with ⟨ahead, rfl, hlast⟩ | ⟨others, rfl, hbehind⟩
      · have hmem : made ∈ [(⟨⟨model, node, templatePath index⟩, closeScope⟩ : Call Scopes)] := by
          rw [hlast]
          simp
        obtain rfl := List.mem_singleton.1 hmem
        exact absurd rfl hbracket
      · cases others with
        | nil =>
          obtain ⟨rfl, -⟩ := List.cons.inj hbehind
          exact absurd rfl hbracket
        | cons first others =>
          obtain ⟨rfl, rfl⟩ := List.cons.inj hbehind
          exact ⟨others, rfl, rfl⟩
    obtain ⟨rfl, -, hpath⟩ := hdeclared.of_append hmiddle
    obtain ⟨_, opened, _, hopen, hrest⟩ := hanswered.of_cons
    have hopened : [] :: progress.state = opened.state := (Prod.mk.inj (Prod.mk.inj hopen).1).2
    refine ⟨?_, ?_⟩
    · refine List.flatMap_eq_nil_iff.2 fun call hcall => ?_
      obtain rfl := List.mem_singleton.1 (List.mem_of_mem_filter hcall)
      exact constantsOf_eq_nil hmodel htemplate
    · rw [around, hpath, if_neg ((outside_inside_iff index).not.2 hblocked), hrest.eq_of_nil,
        hopened]
  | @bare node index declared hat htemplate hblocked hdeclared =>
    obtain ⟨rfl, -, hpath⟩ := hdeclared.of_append hsplit
    rw [around, hpath, if_pos ((outside_inside_iff index).2 hblocked), hanswered.eq_of_nil]
    exact ⟨rfl, rfl⟩

/-- At the declarations of a template, the scopes are those before any template with the constants
that are known from the templates ahead on. -/
theorem state_of_inside_flatten (hmodel : model.WellFormed) {segments : List (List (Call Scopes))}
    (h : ∀ segment ∈ segments, IsTemplate model blocked segment) {ahead back : List (Call Scopes)}
    {made : Call Scopes} (hsplit : segments.flatten = ahead ++ made :: back)
    (hkind : model.kind made.visit.node = .declaration) {progress reached : Progress Scopes}
    (hanswered : Answered progress ahead reached) :
    made.visit.path ≠ globalPath ∧ reached.state = around blocked made.visit.path
      (progress.state.defineAll (lasting blocked ahead)) := by
  obtain ⟨front, segment, later, inside, behind, rfl, hsegment, rfl⟩ := exists_of_flatten_eq hsplit
  obtain ⟨hfront, hsegments⟩ := List.forall_mem_append.1 h
  obtain ⟨htemplate, -⟩ := List.forall_mem_cons.1 hsegments
  refine ⟨path_ne_globalPath htemplate (by simp [hsegment]), ?_⟩
  obtain ⟨middle, hahead, hinside⟩ := hanswered.of_append
  obtain ⟨hnone, hstate⟩ := state_of_inside hmodel htemplate hsegment hkind hinside
  rw [hstate, state_of_flatten hmodel hfront hahead, lasting_append, hnone, List.append_nil]

/-- A call is made for the declarations of the model as a whole, and it is the first, or it is made
in a template, behind that one. -/
theorem front_of_calls {declared front back : List (Call Scopes)}
    {segments : List (List (Call Scopes))} {made : Call Scopes}
    (hdeclared : IsDeclared model .root declared)
    (h : declared ++ segments.flatten = front ++ made :: back) :
    (front = [] ∧ made ∈ declared ∧ made.visit.path = globalPath) ∨
      ∃ ahead, front = declared ++ ahead ∧ segments.flatten = ahead ++ made :: back := by
  rcases List.append_eq_append_iff.1 h with ⟨ahead, rfl, hahead⟩ | ⟨rest, rfl, hback⟩
  · exact .inr ⟨ahead, rfl, hahead⟩
  · cases rest with
    | nil => exact .inr ⟨[], by simp, by simpa using hback.symm⟩
    | cons first others =>
      obtain ⟨rfl, -⟩ := List.cons.inj hback
      obtain ⟨rfl, -, hpath⟩ := hdeclared.of_append rfl
      exact .inl ⟨rfl, by simp, hpath⟩

/-- The scopes at declarations are known from the calls ahead: there are the constants that last and
the empty scope of a template, if it has opened one. -/
theorem state_of_answered (hmodel : model.WellFormed) {front back : List (Call Scopes)}
    {made : Call Scopes} {progress : Progress Scopes}
    (hcalls : phase.calls model blocked = front ++ made :: back)
    (hkind : model.kind made.visit.node = .declaration)
    (hanswered : Answered ⟨phase.start, {}⟩ front progress) :
    progress.state = scopesAt blocked made.visit.path front := by
  obtain ⟨declared, segments, hsegments, hdeclared, htemplates⟩ :=
    @exists_segments _ blocked hmodel
  rcases front_of_calls hdeclared (hsegments.symm.trans hcalls) with
    ⟨rfl, -, hpath⟩ | ⟨ahead, rfl, hahead⟩
  · rw [hanswered.eq_of_nil, hpath, scopesAt, around, if_pos (.inl rfl)]
    rfl
  · obtain ⟨middle, hfirst, hrest⟩ := hanswered.of_append
    obtain ⟨-, hstate⟩ := state_of_inside_flatten hmodel htemplates hahead hkind hrest
    rw [hstate, state_of_isDeclared hdeclared hfirst, scopesAt, lasting_append,
      Scopes.defineAll_append, lasting_of_isDeclared hdeclared, if_pos (.inl rfl)]
    rfl

/-- If no template is at a blocked path, there is a scope around the declarations of each. -/
theorem not_outside (hmodel : model.WellFormed)
    (hopen : ∀ {node path}, model.At node path → model.kind node = .template →
      path.render ∉ blocked)
    {made : Call Scopes} (hmade : made ∈ phase.calls model blocked)
    (hkind : model.kind made.visit.node = .declaration) (hpath : made.visit.path ≠ globalPath) :
    ¬Outside blocked made.visit.path := by
  obtain ⟨declared, segments, hsegments, hdeclared, htemplates⟩ :=
    @exists_segments _ blocked hmodel
  -- The declarations of the model as a whole are at their own path, so the call is in a template.
  rw [hsegments] at hmade
  rcases List.mem_append.1 hmade with hmade | hmade
  · obtain ⟨front, back, hsplit⟩ := List.append_of_mem hmade
    exact absurd (hdeclared.of_append hsplit).2.2 hpath
  · obtain ⟨segment, hsegment, hmade⟩ := List.mem_flatten.1 hmade
    cases htemplates segment hsegment with
    | bracketed htemplate hblocked hdeclared =>
      have hbracket := ne_of_kind hkind htemplate
      simp only [List.mem_cons, List.mem_append, List.not_mem_nil, or_false] at hmade
      rcases hmade with rfl | hmade | rfl
      · exact absurd rfl hbracket
      · obtain ⟨front, back, hsplit⟩ := List.append_of_mem hmade
        rw [(hdeclared.of_append hsplit).2.2, outside_inside_iff]
        exact hblocked
      · exact absurd rfl hbracket
    | bare hat htemplate hblocked _ => exact absurd hblocked (hopen hat htemplate)

/-- If no template is at a blocked path, only the constants of the model as a whole last. -/
theorem lasting_eq (hmodel : model.WellFormed)
    (hopen : ∀ {node path}, model.At node path → model.kind node = .template →
      path.render ∉ blocked) {calls : List (Call Scopes)}
    (hcalls : ∀ made ∈ calls, made ∈ phase.calls model blocked) :
    lasting blocked calls =
      (calls.filter (·.visit.path = globalPath)).flatMap (constantsOf ·.visit) := by
  induction calls with
  | nil => rfl
  | cons made later ih =>
    obtain ⟨hmade, hlater⟩ := List.forall_mem_cons.1 hcalls
    rw [← List.singleton_append, lasting_append, ih hlater, List.filter_append, List.flatMap_append]
    congr 1
    by_cases hpath : made.visit.path = globalPath
    · have houtside : Outside blocked globalPath := .inl rfl
      simp [lasting, hpath, houtside]
    · by_cases hkind : model.kind made.visit.node = .declaration
      · simp [lasting, hpath, not_outside hmodel hopen hmade hkind hpath]
      · -- Templates have no constants of their own.
        obtain ⟨hvisit, -, -⟩ := at_of_mem_calls hmade
        obtain ⟨registration, hregistration, -, hregistered⟩ :=
          exists_registration_of_mem_calls hmade
        have hkinds : ∀ registration ∈ phase.enter ++ phase.leave,
            registration.kind = .template ∨ registration.kind = .declaration := by
          decide
        have htemplate := hkinds registration hregistration
        have hnone : constantsOf made.visit = [] :=
          constantsOf_eq_nil (hvisit ▸ hmodel) (by
            rw [hvisit, ← hregistered]
            exact htemplate.resolve_right fun h => hkind (hregistered ▸ h))
        by_cases houtside : Outside blocked made.visit.path <;>
          simp [lasting, hpath, houtside, hnone]

/-- Around the declarations of the model as a whole there is no scope. Around those of a template
there are two, the empty one of the template and that of the model as a whole. -/
theorem exists_declared (hmodel : model.WellFormed)
    (hopen : ∀ {node path}, model.At node path → model.kind node = .template →
      path.render ∉ blocked) :
    ∃ declared, IsDeclared model .root declared ∧
      (∀ made ∈ declared, made ∈ phase.calls model blocked) ∧
      (∀ made ∈ phase.calls model blocked, made.visit.path = globalPath → made ∈ declared) ∧
      ∀ {front made back progress}, phase.calls model blocked = front ++ made :: back →
        model.kind made.visit.node = .declaration → Answered ⟨phase.start, {}⟩ front progress →
        (made.visit.path = globalPath ∧ progress.state = []) ∨
        (made.visit.path ≠ globalPath ∧
          progress.state = [] :: Scopes.defineAll [] (declared.flatMap (constantsOf ·.visit))) := by
  obtain ⟨declared, segments, hsegments, hdeclared, htemplates⟩ :=
    @exists_segments _ blocked hmodel
  have hplain : ∀ made ∈ segments.flatten, made.visit.path ≠ globalPath := by
    intro made hmade
    obtain ⟨segment, hsegment, hmade⟩ := List.mem_flatten.1 hmade
    exact path_ne_globalPath (htemplates segment hsegment) hmade
  -- The calls for the model as a whole come first, then the templates, one after the other.
  refine ⟨declared, hdeclared, fun made hmade => by simp [hsegments, hmade],
    fun made hmade hpath => ?_, fun {front made back progress} hsplit hkind hanswered => ?_⟩
  · rw [hsegments] at hmade
    exact (List.mem_append.1 hmade).resolve_right fun h => hplain made h hpath
  · rcases front_of_calls hdeclared (hsegments.symm.trans hsplit) with
      ⟨rfl, -, hpath⟩ | ⟨ahead, rfl, hahead⟩
    · exact .inl ⟨hpath, by rw [hanswered.eq_of_nil]; rfl⟩
    · have hstate := state_of_answered hmodel hsplit hkind hanswered
      have hpath : made.visit.path ≠ globalPath := hplain made (by simp [hahead])
      have hnone : ahead.filter (·.visit.path = globalPath) = [] :=
        List.filter_eq_nil_iff.2 fun call hcall => by
          simpa using hplain call (by simp [hahead, hcall])
      rw [scopesAt, around, if_neg (not_outside hmodel hopen (by simp [hsplit]) hkind hpath),
        lasting_append, lasting_of_isDeclared hdeclared, if_pos (.inl rfl),
        lasting_eq hmodel hopen fun call hcall => by simp [hsplit, hcall], hnone] at hstate
      exact .inr ⟨hpath, by simpa using hstate⟩

section Runs

variable {after : Model} {outcome : Outcome} {node : NodeId}

/-- At declarations, the handler for them is called, and nothing else. -/
theorem registered_of_declaration (hkind : model.kind node = .declaration) (path : Path) :
    registered model phase.enter node path ++ registered model phase.leave node path =
      [⟨⟨model, node, path⟩, expand⟩] := by
  rw [registered_enter, registered_leave, hkind]
  rfl

/-- The handler for declarations is called for each that is not blocked, and what it makes of the
text is in the model behind the phase. -/
theorem exists_expand_of_run (hmodel : model.WellFormed)
    (hrun : (phase.run model blocked).1 = .ok outcome)
    (hcommit : outcome.layer.commit model = .ok after) (hat : model.At node path)
    (hkind : model.kind node = .declaration) (hblocked : path.render ∉ blocked) :
    ∃ front back progress text diagnostics state revised?,
      phase.calls model blocked = front ++ ⟨⟨model, node, path⟩, expand⟩ :: back ∧
      Answered ⟨phase.start, {}⟩ front progress ∧ model.text? node = some text ∧
      (expand ⟨model, node, path⟩).carryOut ⟨model, node, path⟩ progress.state none =
        ((.ok diagnostics, state), revised?) ∧
      after.text? node = some ((revised?.map Revision.current).getD text) := by
  obtain ⟨text, htext⟩ := hmodel.exists_text (by rw [hkind]; rfl)
  obtain ⟨front, back, progress, diagnostics, state, revised?, hcalls, hanswered, hcarryOut,
      hafter⟩ :=
    exists_carryOut_of_run hmodel hrun hcommit hat hblocked (registered_of_declaration hkind path)
      htext
  exact ⟨front, back, progress, text, diagnostics, state, revised?, hcalls, hanswered, htext,
    hcarryOut, hafter⟩

/-! ## Running the phase again -/

theorem handler_eq_expand {registration : Registration Scopes}
    (h : registration ∈ phase.enter ++ phase.leave) (hkind : registration.kind = .declaration) :
    registration.handler = expand := by
  rcases List.mem_cons.1 h with rfl | h
  · cases hkind
  · rcases List.mem_cons.1 h with rfl | h
    · rfl
    · obtain rfl := List.mem_singleton.1 h
      cases hkind

/-- The text of a declaration is settled with the constants that are known there. -/
theorem exists_settles (hmodel : model.WellFormed) (hrun : (phase.run model []).1 = .ok outcome)
    (hcommit : outcome.layer.commit model = .ok after) (hat : model.At node path)
    (hkind : model.kind node = .declaration) :
    ∃ front back progress text settled,
      phase.calls model [] = front ++ ⟨⟨model, node, path⟩, expand⟩ :: back ∧
      Answered ⟨phase.start, {}⟩ front progress ∧ model.text? node = some text ∧
      after.text? node = some settled ∧ Settles progress.state text settled := by
  obtain ⟨front, back, progress, text, diagnostics, state, revised?, hcalls, hanswered, htext,
      hcarryOut, hafter⟩ := exists_expand_of_run hmodel hrun hcommit hat hkind List.not_mem_nil
  refine ⟨front, back, progress, text, _, hcalls, hanswered, htext, hafter, ?_⟩
  have hvisit : Visit.text? ⟨model, node, path⟩ = some text := htext
  obtain ⟨diagnostics', revised', hexpand, hsettles, -⟩ :=
    exists_carryOut_expand hvisit progress.state
  rw [hexpand] at hcarryOut
  obtain rfl := (Prod.mk.inj hcarryOut).2
  exact hsettles

/-- The declarations of the model as a whole define the same constants as before, if they are
visited again, and so no constant that was not known before. -/
theorem below_globals (hmodel : model.WellFormed) (hrun : (phase.run model []).1 = .ok outcome)
    (hcommit : outcome.layer.commit model = .ok after) {declared declared' : List (Call Scopes)}
    (hdeclared : IsDeclared model .root declared)
    (hglobal : ∀ made ∈ phase.calls model [], made.visit.path = globalPath → made ∈ declared)
    (hdeclared' : IsDeclared after .root declared')
    (hthere : ∀ made ∈ declared', model.At made.visit.node made.visit.path ∧
      model.kind made.visit.node = .declaration) :
    Scopes.Below (Scopes.defineAll [] (declared'.flatMap (constantsOf ·.visit)))
      (Scopes.defineAll [] (declared.flatMap (constantsOf ·.visit))) := by
  -- There is at most one such call in each run, and both are for the same element.
  rcases hdeclared' with rfl | ⟨node, -, rfl⟩
  · exact .nil _
  · obtain ⟨hat, hkind⟩ := hthere _ (List.mem_singleton_self _)
    obtain ⟨front, back, _, text, settled, hcalls, -, htext, hsettled, hsettles⟩ :=
      exists_settles hmodel hrun hcommit hat hkind
    have hmember : ⟨⟨model, node, globalPath⟩, expand⟩ ∈ declared :=
      hglobal _ (hcalls ▸ List.mem_append_right _ List.mem_cons_self) rfl
    rcases hdeclared with rfl | ⟨node', -, rfl⟩
    · cases hmember
    · rw [← List.mem_singleton.1 hmember]
      have hbefore : constantsOf ⟨model, node, globalPath⟩ = constantsIn text := by
        rw [constantsOf, Visit.text?, htext]
        rfl
      have hbehind : constantsOf ⟨after, node, globalPath⟩ = constantsIn settled := by
        rw [constantsOf, Visit.text?, hsettled]
        rfl
      show Scopes.Below (Scopes.defineAll [] (constantsOf ⟨after, node, globalPath⟩ ++ []))
        (Scopes.defineAll [] (constantsOf ⟨model, node, globalPath⟩ ++ []))
      rw [hbefore, hbehind, List.append_nil, List.append_nil,
        Scopes.defineAll_congr hsettles.bindings_eq]
      exact .refl _

/-- At no declaration is a constant known that was not known there in the first walk, if the scopes
of templates are opened again. -/
theorem below_of_answered (hmodel : model.WellFormed) (hrun : (phase.run model []).1 = .ok outcome)
    (hcommit : outcome.layer.commit model = .ok after)
    (htemplates : ∀ {node path}, after.At node path → after.kind node = .template →
      path.render ∉ blocked)
    {front back front' back' : List (Call Scopes)} {made made' : Call Scopes}
    {progress progress' : Progress Scopes}
    (hcalls : phase.calls model [] = front ++ made :: back)
    (hanswered : Answered ⟨phase.start, {}⟩ front progress)
    (hcalls' : phase.calls after blocked = front' ++ made' :: back')
    (hanswered' : Answered ⟨phase.start, {}⟩ front' progress')
    (hpath : made'.visit.path = made.visit.path)
    (hkind : model.kind made.visit.node = .declaration)
    (hkind' : model.kind made'.visit.node = .declaration) :
    progress'.state.Below progress.state := by
  have hcommitted := (run_describes hmodel hrun).committed hmodel hcommit
  obtain ⟨declared, hdeclared, -, hglobal, hstate⟩ :=
    @exists_declared model [] hmodel fun _ _ => List.not_mem_nil
  obtain ⟨declared', hdeclared', hcalled, -, hstate'⟩ :=
    @exists_declared after blocked (hcommitted.wellFormed hmodel) htemplates
  rcases hstate' hcalls' ((hcommitted.kind_eq _).trans hkind') hanswered' with
    ⟨-, hscopes'⟩ | ⟨hinside, hscopes'⟩
  · rw [hscopes']
    exact .nil _
  · rcases hstate hcalls hkind hanswered with ⟨hglobalPath, -⟩ | ⟨-, hscopes⟩
    · exact absurd (hpath.trans hglobalPath) hinside
    · -- Around a template there are the constants of the model as a whole in both walks.
      rw [hscopes', hscopes]
      apply Scopes.Below.cons_nil
      refine below_globals hmodel hrun hcommit hdeclared hglobal hdeclared' fun call hcall => ?_
      obtain ⟨-, hthere, -⟩ := at_of_mem_calls (hcalled call hcall)
      refine ⟨hcommitted.at_before hthere, ?_⟩
      rcases hdeclared' with rfl | ⟨node, hnode, rfl⟩
      · cases hcall
      · rw [List.mem_singleton.1 hcall, ← hcommitted.kind_eq, hnode]

end Runs

/-- Once all arrays were expanded, nothing is left to be expanded. A text that is visited again
defines the same constants, and a blocked one defines none, so no constant is known that was not
known before. -/
theorem settles_phase : phase.Settles .declaration := by
  intro model after outcome later blocked hmodel hrun hcommit hblocked hagain
  have hcommitted := (run_describes hmodel hrun).committed hmodel hcommit
  have htemplates : ∀ {node path}, after.At node path → after.kind node = .template →
      path.render ∉ blocked := by
    intro node path hat hkind hmem
    have hother := hblocked (hcommitted.at_before hat) hmem ⟨.template, [], openScope⟩
      List.mem_cons_self ((hcommitted.kind_eq _).symm.trans hkind).symm
    cases hother
  refine layer_eq_empty_of_run hagain fun {front made back progress diagnostics state revised?}
    hcalls hanswered hcarryOut => ?_
  have hmem : made ∈ phase.calls after blocked := by
    rw [hcalls]
    simp
  obtain ⟨hmodelVisit, hat, -⟩ := at_of_mem_calls hmem
  obtain ⟨registration, hregistration, hhandler, hkind⟩ := exists_registration_of_mem_calls hmem
  rw [← hhandler] at hcarryOut
  by_cases hdeclaration : registration.kind = .declaration
  · rw [handler_eq_expand hregistration hdeclaration] at hcarryOut
    have hkind' : model.kind made.visit.node = .declaration := by
      rw [← hcommitted.kind_eq, ← hkind, hdeclaration]
    obtain ⟨front', back', progress', text, settled, hcalls', hanswered', -, hsettled, hsettles⟩ :=
      exists_settles hmodel hrun hcommit (hcommitted.at_before hat) hkind'
    have hbelow : progress.state.Below progress'.state :=
      below_of_answered hmodel hrun hcommit htemplates hcalls' hanswered' hcalls hanswered rfl
        hkind' hkind'
    have htextVisit : made.visit.text? = some settled := by
      rw [Visit.text?, hmodelVisit, hsettled]
    obtain ⟨_, revised', hexpand, -, hidle⟩ := exists_carryOut_expand htextVisit progress.state
    obtain rfl := hidle (hsettles.patchesIn_eq_nil hbelow)
    rw [hexpand] at hcarryOut
    exact (Prod.mk.inj hcarryOut).2.symm
  · -- The handlers for templates make no edits in any case.
    obtain ⟨change, hchanging⟩ :=
      about_phase.exists_changing registration hregistration hdeclaration
    rw [hchanging, Handler.carryOut_changing] at hcarryOut
    exact (Prod.mk.inj hcarryOut).2.symm

end Retrace.ArrayInit
