import Retrace.Grammar.Scan
import Retrace.Proofs.Grammar.LeftRecursion
import Retrace.Proofs.Text.Boundary

/-!
# What a grammar derives

The declarative reading of a grammar, on which nothing of the way it is evaluated has any influence.
`Grammar.Yields` says of an expression that it derives the text between two offsets, and with which
items: terminals stand behind whatever may be skipped, a sequence derives one item after the other,
a repetition any number of iterations, empty ones included. What is built for a repetition has none
that are empty, and one child for each (`Grammar.Laps`).

## Main definitions

* `Grammar.Stands`: a terminal stands behind whatever may be skipped;
* `Grammar.Yields`: an expression derives a piece of text;
* `Grammar.Laps`: iterations that derive a piece of text, none of them empty;
* `Grammar.Derives`: a rule derives a piece of text, as a tree.

## Main results

* `Grammar.Yields.isBoundary`: pieces that are derived begin and end between two characters;
* `Grammar.Yields.mayBeEmpty`: nothing is derived only where the rules alone allow it.
-/

namespace Retrace

/-- A word is part of a longer name: a name goes on from the text before into the word, or from the
word into the text behind. -/
def Text.Glued (before word behind : Text) : Prop :=
  (before.getLast?.any Text.isNameChar ∧ word.head?.any Text.isNameChar) ∨
    (word.getLast?.any Text.isNameChar ∧ behind.head?.any Text.isNameChar)

/-- What can be derived: an expression, the items of a sequence one after the other, or any number
of iterations of a body. -/
inductive Form where
  /-- An expression. -/
  | expr (expr : Production)
  /-- The items of a sequence. -/
  | items (items : List Production)
  /-- The iterations of a repetition. -/
  | rounds (body : Production)

/-- A form may derive nothing, judged by the rules alone. -/
def Form.MayBeEmpty (bodies : List Production) : Form → Prop
  | .expr whole => LeftRecursion.Nullable bodies whole
  | .items several => ∀ item ∈ several, LeftRecursion.Nullable bodies item
  | .rounds _ => True

namespace Grammar

/-- Behind `front`, a word stands after exactly what may be skipped there, and is not part of a
longer name. -/
structure Stands (grammar : Grammar) (text front gap word back : Text) : Prop where
  /-- The text consists of these parts. -/
  text_eq : text = front ++ (gap ++ (word ++ back))
  /-- The gap is what may be skipped. -/
  length_gap : (grammar.skip.length? (gap ++ (word ++ back))).getD 0 = gap.length
  /-- The word is not part of a longer name. -/
  not_glued : ¬ Text.Glued (front ++ gap) word back

/-- A form derives the text from one offset to another, with these items. -/
inductive Yields (grammar : Grammar) (text : Text) :
    Form → (start stop : Nat) → List (Option ParseTree) → Prop
  | literal {front gap word back : Text} : grammar.Stands text front gap word back →
      Yields grammar text (.expr (.literal word)) (Text.size front)
        (Text.size (front ++ (gap ++ word)))
        [some (.leaf ⟨String.ofList word, word,
          ⟨Text.size (front ++ gap), Text.size (front ++ (gap ++ word))⟩⟩)]
  | token {index : Nat} {token : Token} {front gap word back : Text} :
      grammar.tokens[index]? = some token →
      token.shape.length? (word ++ back) = some word.length → word ≠ [] →
      grammar.Stands text front gap word back →
      Yields grammar text (.expr (.call (.token index))) (Text.size front)
        (Text.size (front ++ (gap ++ word)))
        [some (.leaf ⟨token.name, word,
          ⟨Text.size (front ++ gap), Text.size (front ++ (gap ++ word))⟩⟩)]
  | rule {index : Nat} {rule : Rule} {start stop : Nat} {children : List (Option ParseTree)} :
      grammar.rules[index]? = some rule →
      Yields grammar text (.expr rule.body) start stop children →
      Yields grammar text (.expr (.call (.rule index))) start stop
        [some (.node (some rule.name) children (coverSpan children start))]
  | seq {items : List Production} {start stop : Nat} {children : List (Option ParseTree)} :
      Yields grammar text (.items items) start stop children →
      Yields grammar text (.expr (.seq items)) start stop children
  | either {branches : List Production} {branch : Production} {start stop : Nat}
      {children : List (Option ParseTree)} : branch ∈ branches →
      Yields grammar text (.expr branch) start stop children →
      Yields grammar text (.expr (.either branches)) start stop children
  | absent (body : Production) (start : Nat) :
      Yields grammar text (.expr (.optional body)) start start [none]
  | present {body : Production} {start stop : Nat} {children : List (Option ParseTree)} :
      Yields grammar text (.expr body) start stop children →
      Yields grammar text (.expr (.optional body)) start stop [some (groupItems children start)]
  | loop {label : Nat} {body : Production} {start stop : Nat}
      {children : List (Option ParseTree)} :
      Yields grammar text (.rounds body) start stop children →
      Yields grammar text (.expr (.loop label body)) start stop
        [some (.node none children (coverSpan children start))]
  | noItem (start : Nat) : Yields grammar text (.items []) start start []
  | item {first : Production} {items : List Production} {start middle stop : Nat}
      {front back : List (Option ParseTree)} :
      Yields grammar text (.expr first) start middle front →
      Yields grammar text (.items items) middle stop back →
      Yields grammar text (.items (first :: items)) start stop (front ++ back)
  | noRound (body : Production) (start : Nat) : Yields grammar text (.rounds body) start start []
  | round {body : Production} {start middle stop : Nat} {children later : List (Option ParseTree)} :
      Yields grammar text (.expr body) start middle children →
      Yields grammar text (.rounds body) middle stop later →
      Yields grammar text (.rounds body) start stop (some (groupItems children start) :: later)

/-- Iterations of a body that derive the text from one offset to another, each of them beginning
where the one before it ends and reading something; with one child for each. -/
inductive Laps (grammar : Grammar) (text : Text) (body : Production) :
    (start stop : Nat) → List (Option ParseTree) → Prop
  | nil (start : Nat) : Laps grammar text body start start []
  | cons {start middle stop : Nat} {children later : List (Option ParseTree)} : start < middle →
      grammar.Yields text (.expr body) start middle children →
      Laps grammar text body middle stop later →
      Laps grammar text body start stop (some (groupItems children start) :: later)

/-- A rule derives the text from one offset to another, as this tree. -/
def Derives (grammar : Grammar) (text : Text) (index start stop : Nat) (tree : ParseTree) : Prop :=
  grammar.Yields text (.expr (.call (.rule index))) start stop [some tree]

variable {grammar : Grammar} {text : Text}

namespace Yields

variable {form : Form} {start stop : Nat} {children : List (Option ParseTree)}

/-- Nothing is derived backwards. -/
theorem le (h : grammar.Yields text form start stop children) : start ≤ stop := by
  induction h with
  | literal => simp only [Text.size_append]; omega
  | token => simp only [Text.size_append]; omega
  | rule _ _ ih => exact ih
  | seq _ ih => exact ih
  | either _ _ ih => exact ih
  | absent => exact Nat.le_refl _
  | present _ ih => exact ih
  | loop _ ih => exact ih
  | noItem => exact Nat.le_refl _
  | item _ _ ihfirst ihlater => exact Nat.le_trans ihfirst ihlater
  | noRound => exact Nat.le_refl _
  | round _ _ ihfirst ihlater => exact Nat.le_trans ihfirst ihlater

/-- What begins between two characters ends between two characters. -/
theorem isBoundary (h : grammar.Yields text form start stop children)
    (hstart : text.IsBoundary start) : text.IsBoundary stop := by
  have hterminal {front gap word back : Text} (hstands : grammar.Stands text front gap word back) :
      text.IsBoundary (Text.size (front ++ (gap ++ word))) := by
    refine Text.isBoundary_iff.2 ⟨front ++ (gap ++ word), back, ?_, rfl⟩
    rw [hstands.text_eq]
    simp only [List.append_assoc]
  induction h with
  | literal hstands => exact hterminal hstands
  | token _ _ _ hstands => exact hterminal hstands
  | rule _ _ ih => exact ih hstart
  | seq _ ih => exact ih hstart
  | either _ _ ih => exact ih hstart
  | absent => exact hstart
  | present _ ih => exact ih hstart
  | loop _ ih => exact ih hstart
  | noItem => exact hstart
  | item _ _ ihfirst ihlater => exact ihlater (ihfirst hstart)
  | noRound => exact hstart
  | round _ _ ihfirst ihlater => exact ihlater (ihfirst hstart)

/-- Only what is nullable derives nothing. -/
theorem mayBeEmpty (h : grammar.Yields text form start stop children) (heq : start = stop) :
    form.MayBeEmpty grammar.bodies := by
  induction h with
  | @literal front gap word back _ =>
    obtain rfl : word = [] := by
      rw [← Text.size_eq_zero_iff]
      simp only [Text.size_append] at heq
      omega
    exact LeftRecursion.Nullable.literal
  | token _ _ hword _ =>
    -- A token is never empty, so it moves the offset.
    refine absurd ?_ hword
    rw [← Text.size_eq_zero_iff]
    simp only [Text.size_append] at heq
    omega
  | @rule index rule _ _ _ hrule _ ih =>
    refine LeftRecursion.Nullable.rule ?_ (ih heq)
    rw [bodies, List.getElem?_map, Array.getElem?_toList, hrule]
    rfl
  | seq _ ih => exact LeftRecursion.Nullable.seq (ih heq)
  | either hbranch _ ih => exact LeftRecursion.Nullable.either hbranch (ih heq)
  | absent body => exact LeftRecursion.Nullable.optional body
  | @present body => exact LeftRecursion.Nullable.optional body
  | @loop label body => exact LeftRecursion.Nullable.loop label body
  | noItem => exact fun item hitem => (List.not_mem_nil hitem).elim
  | item hfirst hlater ihfirst ihlater =>
    -- Where both parts go ahead, neither can if the whole does not.
    have hle := hfirst.le
    have hle' := hlater.le
    intro item hitem
    rcases List.mem_cons.1 hitem with rfl | hitem
    · exact ihfirst (by omega)
    · exact ihlater (by omega) item hitem
  | noRound => trivial
  | round => trivial

end Yields

/-- Iterations that read something are iterations. -/
theorem Laps.yields {body : Production} {start stop : Nat} {children : List (Option ParseTree)}
    (h : grammar.Laps text body start stop children) :
    grammar.Yields text (.rounds body) start stop children := by
  induction h with
  | nil start => exact .noRound body start
  | cons _ hfirst _ ih => exact .round hfirst ih

end Grammar

end Retrace
