import Retrace.Proofs.Except
import Retrace.Proofs.Grammar.Plain
import Retrace.Proofs.Grammar.Spelling

/-!
# Writing rules down

An expression is written down term by term, with bars between alternatives, brackets around
optional parts and repetitions, and parentheses where a term could not be told from what is around
it (`Expr.words`). Reading a rule that is written like that gives back the expression, however its
words are separated (`Description.read_of_spells`).

## Main definitions

* `Expr.words`: the words that an expression is written with;
* `Description.Expressible`: names are valid, and sequences and alternatives have two items or more;
* `Description.Reads`: what reading some words does to the alternatives that are being read.
-/

namespace Retrace

namespace Description

namespace Bracket

/-- The character that opens a bracket. -/
def opening : Bracket → Char
  | square => '['
  | curly => '\x7b'
  | round => '('

/-- The character that closes a bracket. -/
def closing : Bracket → Char
  | square => ']'
  | curly => '\x7d'
  | round => ')'

/-- Words in brackets. -/
def enclose (bracket : Bracket) (words : List Lexeme) : List Lexeme :=
  .mark bracket.opening :: (words ++ [.mark bracket.closing])

theorem opened?_opening (bracket : Bracket) : opened? bracket.opening = some bracket := by
  cases bracket <;> rfl

theorem closed?_closing (bracket : Bracket) : closed? bracket.closing = some bracket := by
  cases bracket <;> rfl

end Bracket

end Description

namespace Expr

open Description

/-- The expression is a sequence. -/
def isSeq {Ref Label : Type} : Expr Ref Label → Bool
  | .seq _ => true
  | _ => false

/-- The expression is one of several alternatives. -/
def isEither {Ref Label : Type} : Expr Ref Label → Bool
  | .either _ => true
  | _ => false

mutual

/-- The words that an expression is written with. -/
def words : Plain → List Lexeme
  | .literal text => [.literal text]
  | .call name => [.name name.toList]
  | .seq items => seqWords items
  | .either branches => eitherWords branches
  | .optional body => Bracket.square.enclose body.words
  | .loop () body => Bracket.curly.enclose body.words

/-- The words that the items of a sequence are written with, one after the other. A sequence and
alternatives among them stand in parentheses. -/
def seqWords : List Plain → List Lexeme
  | [] => []
  | item :: items =>
    (if item.isSeq || item.isEither then Bracket.round.enclose item.words else item.words) ++
      seqWords items

/-- The words that alternatives are written with, with bars between them. Alternatives among them
stand in parentheses. -/
def eitherWords : List Plain → List Lexeme
  | [] => []
  | [branch] => if branch.isEither then Bracket.round.enclose branch.words else branch.words
  | branch :: others =>
    (if branch.isEither then Bracket.round.enclose branch.words else branch.words) ++
      .mark '|' :: eitherWords others

end

/-- The words that an item of a sequence is written with. -/
def itemWords (item : Plain) : List Lexeme :=
  if item.isSeq || item.isEither then Bracket.round.enclose item.words else item.words

/-- The words that one of several alternatives is written with. -/
def branchWords (branch : Plain) : List Lexeme :=
  if branch.isEither then Bracket.round.enclose branch.words else branch.words

theorem seqWords_cons (item : Plain) (items : List Plain) :
    seqWords (item :: items) = item.itemWords ++ seqWords items := by
  rw [seqWords, itemWords]

theorem eitherWords_singleton (branch : Plain) : eitherWords [branch] = branch.branchWords := by
  rw [eitherWords, branchWords]

theorem eitherWords_cons (branch other : Plain) (others : List Plain) :
    eitherWords (branch :: other :: others) =
      branch.branchWords ++ .mark '|' :: eitherWords (other :: others) := by
  rw [eitherWords, branchWords]
  exact nofun

/-- Two alternatives or more do not collapse. -/
theorem eitherOf_eq {Ref Label : Type} {branches : List (Expr Ref Label)}
    (h : 2 ≤ branches.length) : eitherOf branches = .either branches := by
  rw [eitherOf]
  rintro single rfl
  simp at h

/-- Two items or more do not collapse. -/
theorem seqOf_eq {Ref Label : Type} {items : List (Expr Ref Label)} (h : 2 ≤ items.length) :
    seqOf items = .seq items := by
  rw [seqOf]
  rintro single rfl
  simp at h

end Expr

namespace Description

/-- The names in an expression are valid, and every sequence and all alternatives consist of two
items or more. -/
inductive Expressible : Plain → Prop
  | literal (text : Text) : Expressible (.literal text)
  | call {name : String} : IsName name.toList → Expressible (.call name)
  | seq {items : List Plain} : 2 ≤ items.length → (∀ item ∈ items, Expressible item) →
      Expressible (.seq items)
  | either {branches : List Plain} : 2 ≤ branches.length →
      (∀ branch ∈ branches, Expressible branch) → Expressible (.either branches)
  | optional {body : Plain} : Expressible body → Expressible (.optional body)
  | loop {body : Plain} : Expressible body → Expressible (.loop () body)

/-- The words that a rule is written with. -/
def ruleWords (name : String) (expr : Plain) : List Lexeme :=
  .name name.toList :: .mark '=' :: (expr.words ++ [.mark ';'])

/-! ## The words are words -/

theorem Bracket.forall_isWord_enclose {bracket : Bracket} {words : List Lexeme}
    (h : ∀ word ∈ words, word.IsWord) : ∀ word ∈ bracket.enclose words, word.IsWord := by
  have hopening : IsMark bracket.opening := by cases bracket <;> decide
  have hclosing : IsMark bracket.closing := by cases bracket <;> decide
  simp only [enclose, List.forall_mem_cons, List.forall_mem_append]
  exact ⟨hopening, h, hclosing, nofun⟩

theorem forall_isWord_seqWords {items : List Plain}
    (h : ∀ item ∈ items, ∀ word ∈ Expr.words item, word.IsWord) :
    ∀ word ∈ Expr.seqWords items, word.IsWord := by
  induction items with
  | nil => exact nofun
  | cons item items ih =>
    obtain ⟨hitem, hitems⟩ := List.forall_mem_cons.1 h
    rw [Expr.seqWords, List.forall_mem_append]
    refine ⟨?_, ih hitems⟩
    split
    · exact Bracket.forall_isWord_enclose hitem
    · exact hitem

theorem forall_isWord_eitherWords {branches : List Plain}
    (h : ∀ branch ∈ branches, ∀ word ∈ Expr.words branch, word.IsWord) :
    ∀ word ∈ Expr.eitherWords branches, word.IsWord := by
  induction branches with
  | nil => exact nofun
  | cons branch branches ih =>
    obtain ⟨hbranch, hbranches⟩ := List.forall_mem_cons.1 h
    have hwords : ∀ word ∈ Expr.branchWords branch, word.IsWord := by
      rw [Expr.branchWords]
      split
      · exact Bracket.forall_isWord_enclose hbranch
      · exact hbranch
    cases branches with
    | nil => rwa [Expr.eitherWords_singleton]
    | cons other others =>
      rw [Expr.eitherWords_cons, List.forall_mem_append, List.forall_mem_cons]
      have hbar : IsMark '|' := by decide
      exact ⟨hwords, hbar, ih hbranches⟩

theorem Expressible.forall_isWord {expr : Plain} (h : Expressible expr) :
    ∀ word ∈ expr.words, word.IsWord := by
  induction h with
  | literal text =>
    rw [Expr.words]
    exact List.forall_mem_singleton.2 trivial
  | call hname =>
    rw [Expr.words]
    exact List.forall_mem_singleton.2 hname
  | seq _ _ ih =>
    rw [Expr.words]
    exact forall_isWord_seqWords ih
  | either _ _ ih =>
    rw [Expr.words]
    exact forall_isWord_eitherWords ih
  | optional _ ih =>
    rw [Expr.words]
    exact Bracket.forall_isWord_enclose ih
  | loop _ ih =>
    rw [Expr.words]
    exact Bracket.forall_isWord_enclose ih

/-! ## Reading words -/

/-- Reading some words of a rule's alternatives leads from `nest` to `nest'`, whatever is around
them. -/
def Reads (words : List Placed) (nest nest' : Nest) : Prop :=
  ∀ start name outer read later,
    readWords (.rule start name nest outer) read (words ++ later) =
      readWords (.rule start name nest' outer) read later

namespace Reads

variable {words later : List Placed} {nest middle nest' : Nest} {word : Placed}

theorem nil (nest : Nest) : Reads [] nest nest :=
  fun _ _ _ _ _ => rfl

theorem append (h : Reads words nest middle) (h' : Reads later middle nest') :
    Reads (words ++ later) nest nest' := by
  intro start name outer read rest
  rw [List.append_assoc, h, h']

/-- A word that leads on whatever is around it is read. -/
theorem of_readTerm (h : ∀ start name outer,
    readTerm start name nest outer word = .ok (.rule start name nest' outer, none)) :
    Reads [word] nest nest' := by
  intro start name outer read rest
  rw [List.singleton_append, readWords, readWord, h]

theorem name {name : Text} (h : word.lexeme = .name name) :
    Reads [word] nest (nest.add (.call ⟨String.ofList name, word.span⟩)) :=
  of_readTerm fun _ _ _ => by rw [readTerm, h]

theorem literal {text : Text} (h : word.lexeme = .literal text) :
    Reads [word] nest (nest.add (.literal text)) :=
  of_readTerm fun _ _ _ => by rw [readTerm, h]

/-- A bar closes an alternative that is not empty. -/
theorem bar (h : word.lexeme = .mark '|') (hterms : nest.terms ≠ []) :
    Reads [word] nest nest.alternate :=
  of_readTerm fun _ _ _ => by simp [readTerm, h, Bracket.opened?, hterms]

/-- Alternatives in brackets are read as a term. -/
theorem enclosed {bracket : Bracket} {opening closing : Placed}
    (hopening : opening.lexeme = .mark bracket.opening)
    (hclosing : closing.lexeme = .mark bracket.closing) (h : Reads words {} nest')
    (hterms : nest'.terms ≠ []) :
    Reads (opening :: (words ++ [closing])) nest (nest.add (bracket.wrap nest'.close)) := by
  intro start name outer read rest
  -- What is around the brackets waits on the stack until they are closed.
  have hopen : readTerm start name nest outer opening =
      .ok (.rule start name {} ((bracket, nest) :: outer), none) := by
    simp [readTerm, hopening, Bracket.opened?_opening]
  have hclose : readTerm start name nest' ((bracket, nest) :: outer) closing =
      .ok (.rule start name (nest.add (bracket.wrap nest'.close)) outer, none) := by
    have hopened : Bracket.opened? bracket.closing = none := by cases bracket <;> rfl
    have hbar : bracket.closing ≠ '|' := by cases bracket <;> decide
    simp [readTerm, hclosing, hopened, hbar, hterms, Bracket.closed?_closing]
  rw [List.cons_append, List.append_assoc, readWords, readWord, hopen]
  dsimp only
  rw [h, List.singleton_append, readWords, readWord, hclose]

end Reads

/-! ## Reading what has been written -/

/-- Reading the words that an expression is written with gives the expression, as an item of a
sequence, as one of several alternatives, and as the whole of what is in brackets. -/
structure IsRead (expr : Plain) : Prop where
  /-- As an item, it is added to the others. -/
  item : ∀ {words : List Placed}, words.map Placed.lexeme = expr.itemWords → ∀ nest,
    ∃ raw, Reads words nest (nest.add raw) ∧ Expr.plain raw = expr
  /-- As an alternative, it is what has been read behind the last bar. -/
  branch : ∀ {words : List Placed}, words.map Placed.lexeme = expr.branchWords → ∀ branches,
    ∃ terms, Reads words ⟨branches, []⟩ ⟨branches, terms⟩ ∧ terms ≠ [] ∧
      (Expr.seqOf terms.reverse).plain = expr
  /-- As a whole, it is all that has been read. -/
  whole : ∀ {words : List Placed}, words.map Placed.lexeme = expr.words →
    ∃ nest, Reads words {} nest ∧ nest.terms ≠ [] ∧ nest.close.plain = expr

namespace IsRead

variable {expr : Plain}

/-- What is in brackets is read as a term. -/
theorem enclosed {bracket : Bracket} {words : List Placed}
    (hwords : words.map Placed.lexeme = bracket.enclose expr.words)
    (hwhole : ∀ {words : List Placed}, words.map Placed.lexeme = expr.words →
      ∃ nest, Reads words {} nest ∧ nest.terms ≠ [] ∧ nest.close.plain = expr) (nest : Nest) :
    ∃ inner, Reads words nest (nest.add (bracket.wrap inner)) ∧ Expr.plain inner = expr := by
  obtain ⟨opening, later, rfl, hopening, hlater⟩ := List.map_eq_cons_iff.1 hwords
  obtain ⟨inside, last, rfl, hinside, hlast⟩ := List.map_eq_append_iff.1 hlater
  obtain ⟨closing, rest, rfl, hclosing, hrest⟩ := List.map_eq_cons_iff.1 hlast
  obtain rfl := List.map_eq_nil_iff.1 hrest
  obtain ⟨nest', hreads, hterms, hplain⟩ := hwhole hinside
  exact ⟨nest'.close, .enclosed hopening hclosing hreads hterms, hplain⟩

/-- An expression that needs no parentheses is read if it is as an item. -/
theorem of_item (hseq : expr.isSeq = false) (heither : expr.isEither = false)
    (h : ∀ {words : List Placed}, words.map Placed.lexeme = expr.words → ∀ nest,
      ∃ raw, Reads words nest (nest.add raw) ∧ Expr.plain raw = expr) : IsRead expr where
  item hwords := by
    rw [Expr.itemWords, hseq, heither] at hwords
    exact h hwords
  branch hwords branches := by
    rw [Expr.branchWords, heither] at hwords
    obtain ⟨raw, hreads, hplain⟩ := h hwords ⟨branches, []⟩
    exact ⟨[raw], hreads, by simp, hplain⟩
  whole hwords := by
    obtain ⟨raw, hreads, hplain⟩ := h hwords {}
    exact ⟨_, hreads, by simp [Nest.add], hplain⟩

/-- A sequence is read if it is as one of several alternatives. -/
theorem of_branch (hseq : expr.isSeq = true) (heither : expr.isEither = false)
    (h : ∀ {words : List Placed}, words.map Placed.lexeme = expr.words → ∀ branches,
      ∃ terms, Reads words ⟨branches, []⟩ ⟨branches, terms⟩ ∧ terms ≠ [] ∧
        (Expr.seqOf terms.reverse).plain = expr) : IsRead expr := by
  have hwhole {words : List Placed} (hwords : words.map Placed.lexeme = expr.words) :
      ∃ nest, Reads words {} nest ∧ nest.terms ≠ [] ∧ nest.close.plain = expr := by
    obtain ⟨terms, hreads, hterms, hplain⟩ := h hwords []
    exact ⟨⟨[], terms⟩, hreads, hterms, hplain⟩
  refine ⟨fun hwords nest => ?_, fun hwords => ?_, hwhole⟩
  · rw [Expr.itemWords, hseq] at hwords
    exact enclosed hwords hwhole nest
  · rw [Expr.branchWords, heither] at hwords
    exact h hwords

/-- Alternatives are read if they are as a whole. -/
theorem of_whole (heither : expr.isEither = true)
    (h : ∀ {words : List Placed}, words.map Placed.lexeme = expr.words →
      ∃ nest, Reads words {} nest ∧ nest.terms ≠ [] ∧ nest.close.plain = expr) : IsRead expr where
  item hwords nest := by
    rw [Expr.itemWords, heither, Bool.or_true] at hwords
    exact enclosed hwords h nest
  branch hwords branches := by
    rw [Expr.branchWords, heither] at hwords
    obtain ⟨inner, hreads, hplain⟩ := enclosed hwords h ⟨branches, []⟩
    exact ⟨[inner], hreads, by simp, hplain⟩
  whole := h

/-- The items of a sequence are read one after the other. -/
theorem items {items : List Plain} (h : ∀ item ∈ items, IsRead item) {words : List Placed}
    (hwords : words.map Placed.lexeme = Expr.seqWords items) (nest : Nest) :
    ∃ raws : List RawExpr, Reads words nest ⟨nest.branches, raws.reverse ++ nest.terms⟩ ∧
      raws.map Expr.plain = items := by
  induction items generalizing words nest with
  | nil =>
    rw [Expr.seqWords] at hwords
    obtain rfl := List.map_eq_nil_iff.1 hwords
    exact ⟨[], .nil nest, rfl⟩
  | cons item items ih =>
    obtain ⟨hitem, hitems⟩ := List.forall_mem_cons.1 h
    rw [Expr.seqWords_cons] at hwords
    obtain ⟨first, later, rfl, hfirst, hlater⟩ := List.map_eq_append_iff.1 hwords
    -- Terms are kept the latest first, so the later ones come to stand in front.
    obtain ⟨raw, hreads, rfl⟩ := hitem.item hfirst nest
    obtain ⟨raws, hreads', rfl⟩ := ih hitems hlater (nest.add raw)
    exact ⟨raw :: raws, by simpa [Nest.add] using hreads.append hreads', rfl⟩

/-- Alternatives are read one after the other; the last of them is not finished by a bar. -/
theorem branches {first : Plain} {others : List Plain}
    (h : ∀ branch ∈ first :: others, IsRead branch) {words : List Placed}
    (hwords : words.map Placed.lexeme = Expr.eitherWords (first :: others))
    (branches : List RawExpr) :
    ∃ (nest : Nest) (raws : List RawExpr), Reads words ⟨branches, []⟩ nest ∧ nest.terms ≠ [] ∧
      nest.alternate.branches = raws.reverse ++ branches ∧
      raws.map Expr.plain = first :: others := by
  induction others generalizing first words branches with
  | nil =>
    rw [Expr.eitherWords_singleton] at hwords
    obtain ⟨terms, hreads, hterms, hplain⟩ := (h first List.mem_cons_self).branch hwords branches
    exact ⟨⟨branches, terms⟩, [.seqOf terms.reverse], hreads, hterms, rfl, by simp [hplain]⟩
  | cons other others ih =>
    obtain ⟨hfirst, hothers⟩ := List.forall_mem_cons.1 h
    rw [Expr.eitherWords_cons] at hwords
    obtain ⟨front, rest, rfl, hfront, hrest⟩ := List.map_eq_append_iff.1 hwords
    obtain ⟨bar, later, rfl, hbar, hlater⟩ := List.map_eq_cons_iff.1 hrest
    obtain ⟨terms, hreads, hterms, hplain⟩ := hfirst.branch hfront branches
    -- The bar finishes this alternative, and the others are read behind it.
    obtain ⟨nest, raws, hreads', hterms', hnest, hraws⟩ :=
      ih hothers hlater (.seqOf terms.reverse :: branches)
    refine ⟨nest, .seqOf terms.reverse :: raws, ?_, hterms', by simp [hnest],
      by simp [hplain, hraws]⟩
    exact hreads.append (.append (.bar hbar hterms) hreads')

end IsRead

/-- Reading gives back what can be written down. -/
theorem Expressible.isRead {expr : Plain} (h : Expressible expr) : IsRead expr := by
  induction h with
  | literal text =>
    refine .of_item rfl rfl fun {words} hwords nest => ?_
    rw [Expr.words] at hwords
    obtain ⟨word, rest, rfl, hword, hrest⟩ := List.map_eq_cons_iff.1 hwords
    obtain rfl := List.map_eq_nil_iff.1 hrest
    exact ⟨.literal text, .literal hword, by simp [Expr.plain]⟩
  | @call name hname =>
    refine .of_item rfl rfl fun {words} hwords nest => ?_
    rw [Expr.words] at hwords
    obtain ⟨word, rest, rfl, hword, hrest⟩ := List.map_eq_cons_iff.1 hwords
    obtain rfl := List.map_eq_nil_iff.1 hrest
    exact ⟨_, .name hword, by simp [Expr.plain]⟩
  | @seq items hlength _ ih =>
    refine .of_branch rfl rfl fun {words} hwords branches => ?_
    rw [Expr.words] at hwords
    -- Two items or more stay a sequence.
    obtain ⟨raws, hreads, rfl⟩ := IsRead.items ih hwords ⟨branches, []⟩
    rw [List.length_map] at hlength
    rw [List.append_nil] at hreads
    refine ⟨raws.reverse, hreads, ?_, ?_⟩
    · rw [ne_eq, List.reverse_eq_nil_iff, ← List.length_eq_zero_iff]
      omega
    · rw [List.reverse_reverse, Expr.seqOf_eq hlength, Expr.plain, Expr.map_seq]
      rfl
  | @either branches hlength _ ih =>
    refine .of_whole rfl fun {words} hwords => ?_
    rw [Expr.words] at hwords
    cases branches with
    | nil => cases hlength
    | cons first others =>
      obtain ⟨nest, raws, hreads, hterms, hnest, hraws⟩ := IsRead.branches ih hwords []
      have hraws' : 2 ≤ raws.length := by
        rw [← List.length_map (f := Expr.plain), hraws]
        exact hlength
      -- Closing finishes the last alternative and turns all of them round.
      refine ⟨nest, hreads, hterms, ?_⟩
      rw [Nest.close, hnest, List.append_nil, List.reverse_reverse, Expr.eitherOf_eq hraws',
        ← hraws, Expr.plain, Expr.map_either]
      rfl
  | @optional body _ ih =>
    refine .of_item rfl rfl fun {words} hwords nest => ?_
    rw [Expr.words] at hwords
    obtain ⟨inner, hreads, rfl⟩ := IsRead.enclosed hwords ih.whole nest
    exact ⟨_, hreads, by simp [Bracket.wrap, Expr.plain]⟩
  | @loop body _ ih =>
    refine .of_item rfl rfl fun {words} hwords nest => ?_
    rw [Expr.words] at hwords
    obtain ⟨inner, hreads, rfl⟩ := IsRead.enclosed hwords ih.whole nest
    exact ⟨_, hreads, by simp [Bracket.wrap, Expr.plain]⟩

/-- Behind the equals sign of a rule, any word but a pattern begins its alternatives. -/
theorem readWords_equals {first : Placed} (hfirst : first.lexeme.IsWord) (start : Nat)
    (name : String) (read : List Definition) (later : List Placed) :
    readWords (.equals start name) read (first :: later) =
      readWords (.rule start name {} []) read (first :: later) := by
  obtain ⟨lexeme, span⟩ := first
  cases lexeme with
  | name => rfl
  | literal => rfl
  | mark => rfl
  | pattern => exact hfirst.elim
  | openPattern => exact hfirst.elim
  | stop => exact hfirst.elim

/-- The words of a rule, with the end behind them, are read as this rule. -/
theorem readWords_ruleWords {name : String} {expr : Plain} (hexpr : Expressible expr)
    {words : List Placed} (hwords : words.map Placed.lexeme = ruleWords name expr ++ [.stop]) :
    ∃ body span, readWords .idle [] words = .ok [⟨name, .rule body, span⟩] ∧
      Expr.plain body = expr := by
  -- The words are those of the rule, one by one, each with where it stands.
  rw [ruleWords, List.cons_append, List.cons_append, List.append_assoc] at hwords
  obtain ⟨⟨_, first⟩, words, rfl, rfl, hname⟩ := List.map_eq_cons_iff.1 hwords
  obtain ⟨⟨_, equals⟩, words, rfl, rfl, hequals⟩ := List.map_eq_cons_iff.1 hname
  obtain ⟨body, words, rfl, hbody, hrest⟩ := List.map_eq_append_iff.1 hequals
  obtain ⟨⟨_, semicolon⟩, words, rfl, rfl, hsemicolon⟩ := List.map_eq_cons_iff.1 hrest
  obtain ⟨⟨_, stop⟩, words, rfl, rfl, hstop⟩ := List.map_eq_cons_iff.1 hsemicolon
  obtain rfl := List.map_eq_nil_iff.1 hstop
  clear hwords hname hequals hrest hsemicolon hstop
  obtain ⟨nest, hreads, hterms, hplain⟩ := hexpr.isRead.whole hbody
  refine ⟨nest.close, ⟨first.start, semicolon.stop⟩, ?_, hplain⟩
  -- What stands behind the equals sign is a word of the expression, or the semicolon.
  have hequals : readWords (.equals first.start name) []
        (body ++ [⟨.mark ';', semicolon⟩, ⟨.stop, stop⟩]) =
      readWords (.rule first.start name {} []) []
        (body ++ [⟨.mark ';', semicolon⟩, ⟨.stop, stop⟩]) := by
    cases body with
    | nil =>
      have hsemicolon : Lexeme.IsWord (Placed.lexeme ⟨.mark ';', semicolon⟩) := by
        show IsMark ';'
        decide
      exact readWords_equals hsemicolon ..
    | cons word body =>
      have hword : word.lexeme ∈ expr.words := by simp [← hbody]
      exact readWords_equals (hexpr.forall_isWord _ hword) ..
  have hsemicolon : readTerm first.start name nest [] ⟨.mark ';', semicolon⟩ =
      .ok (.idle, some ⟨name, .rule nest.close, ⟨first.start, semicolon.stop⟩⟩) := by
    simp [readTerm, Bracket.opened?, hterms]
  have hname : readWords .idle [] (⟨.name name.toList, first⟩ :: ⟨.mark '=', equals⟩ ::
        (body ++ [⟨.mark ';', semicolon⟩, ⟨.stop, stop⟩])) =
      readWords (.equals first.start name) []
        (body ++ [⟨.mark ';', semicolon⟩, ⟨.stop, stop⟩]) := by
    simp [readWords, readWord]
  rw [hname, hequals, hreads, readWords, readWord, hsemicolon]
  rfl

/-- Every expression with valid names whose sequences and alternatives have two items or more can be
written down as a rule, and reading any text that spells its words gives this one rule, up to where
things are written. -/
theorem read_of_spells {name : String} {expr : Plain} (hname : IsName name.toList)
    (hexpr : Expressible expr) :
    Spells (ruleWords name expr) (spellOut (ruleWords name expr)) ∧
      ∀ text, Spells (ruleWords name expr) text → ∃ body span,
        Description.read text = .ok [⟨name, .rule body, span⟩] ∧ Expr.plain body = expr := by
  refine ⟨spells_spellOut ?_, fun text htext => ?_⟩
  · have hequals : IsMark '=' := by decide
    have hsemicolon : IsMark ';' := by decide
    simp only [ruleWords, List.forall_mem_cons, List.forall_mem_append]
    exact ⟨hname, hequals, hexpr.forall_isWord, hsemicolon, nofun⟩
  · obtain ⟨body, span, hread, hbody⟩ := readWords_ruleWords hexpr (map_lexeme_lex htext)
    exact ⟨body, span, Except.mapError_eq_ok.2 hread, hbody⟩

/-- Sequences and alternatives in one another, and texts that look like comments or escapes. -/
def nestedForms : Plain :=
  .either [
    .seq [.call "a", .seq [.call "b", .optional (.call "a")], .either [.call "b", .literal []]],
    .loop () (.either [.literal "//".toList, .literal "\\\"n".toList]),
    .either [.call "a", .seq [.call "b", .call "b"]]]

/-- What they look like when they are spelled out. -/
def nestedText : Text :=
  "s = a ( b [ a ] ) ( b | \"\" ) | \x7b \"//\" | \"\\\\\\\"n\" \x7d | ( a | b b ) ; ".toList

/-- The nested expression is read back from what it looks like when it is spelled out. -/
theorem read_of_spells_nestedForms :
    spellOut (ruleWords "s" nestedForms) = nestedText ∧
      ∃ body span, Description.read (spellOut (ruleWords "s" nestedForms)) =
        .ok [⟨"s", .rule body, span⟩] ∧ Expr.plain body = nestedForms := by
  have hname : IsName "s".toList := by decide
  have ha : Expressible (.call "a") := .call (by decide)
  have hb : Expressible (.call "b") := .call (by decide)
  have hforms : Expressible nestedForms := by
    refine .either (by decide) ?_
    simp only [List.forall_mem_cons]
    refine ⟨.seq (by decide) ?_, .loop (.either (by decide) ?_), .either (by decide) ?_, nofun⟩
    · simp only [List.forall_mem_cons]
      refine ⟨ha, .seq (by decide) ?_, .either (by decide) ?_, nofun⟩
      · simpa using ⟨hb, .optional ha⟩
      · simpa using ⟨hb, .literal []⟩
    · simpa using ⟨.literal _, .literal _⟩
    · simp only [List.forall_mem_cons]
      exact ⟨ha, .seq (by decide) (by simpa using hb), nofun⟩
  obtain ⟨hspells, hread⟩ := read_of_spells hname hforms
  exact ⟨by decide +kernel, hread _ hspells⟩

end Description

end Retrace
