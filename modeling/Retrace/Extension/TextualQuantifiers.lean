import Retrace.Extension
import Retrace.Grammar.Compile
import Retrace.Grammar.Scan

/-!
# Textual quantifiers

The extension `textual-quantifiers` lets the temporal operators of formulas be spelled out: `ALWAYS`
and `INVARIABLY` stand for `A[]`, `POSSIBLY` for `E<>`, `EVENTUALLY` for `A<>`, `POTENTIALLY ALWAYS`
for `E[]` and `LEADS TO` for an arrow. It applies to the formulas of a model and to queries.

The operators are generated text, so positions inside them are not traced back.
-/

namespace Retrace.TextualQuantifiers

open Description

/-- The name of the extension. -/
def id : String := "textual-quantifiers"

/-- A spelled-out operator. -/
structure Keyword where
  /-- Its words. -/
  words : List String
  /-- The operator. -/
  operator : String
  /-- It quantifies over paths, as a formula does once, at its beginning. -/
  isQuantifier : Bool
  deriving DecidableEq, Repr

/-- All spelled-out operators. -/
def keywords : List Keyword := [
  ⟨["POTENTIALLY", "ALWAYS"], "E[]", true⟩,
  ⟨["INVARIABLY"], "A[]", true⟩,
  ⟨["ALWAYS"], "A[]", true⟩,
  ⟨["POSSIBLY"], "E<>", true⟩,
  ⟨["EVENTUALLY"], "A<>", true⟩,
  ⟨["LEADS", "TO"], "-->", false⟩]

/-- The definitions of the grammar of keywords. -/
def definitions : List Definition := [
  { name := "keyword"
    body := .rule (.either (keywords.map fun keyword => .seqOf (keyword.words.map quoted))) }]

/-- The grammar of keywords. -/
def grammar : Grammar :=
  (Grammar.ofDefinitions definitions).toOption.getD .empty

/-- A keyword in a text. -/
structure Occurrence where
  /-- Where it stands. -/
  span : Span
  /-- The keyword. -/
  keyword : Keyword
  deriving DecidableEq, Repr

/-- The keyword that a tree stands for. -/
def occurrenceOf? (tree : ParseTree) : Option Occurrence :=
  let words := tree.leaves.map Leaf.text
  (keywords.find? fun keyword => keyword.words.map String.toList = words).map fun keyword =>
    ⟨tree.span, keyword⟩

/-- The keywords in a text, in order. -/
def occurrencesIn (text : Text) : List Occurrence :=
  (grammar.findAll text).filterMap occurrenceOf?

/-- Where the second keyword that quantifies over paths stands. -/
def secondQuantifier? (occurrences : List Occurrence) : Option Span :=
  ((occurrences.filter fun occurrence => occurrence.keyword.isQuantifier)[1]?).map Occurrence.span

/-- What is said about a second path quantifier. -/
def secondQuantifierMessage : String := "a formula takes a single path quantifier"

/-- Replace the keywords in the formula of a model. -/
def reviseFormula : Handler Unit := fun visit =>
  match visit.text? with
  | none => return []
  | some text => do
    let occurrences := occurrencesIn text
    occurrences.forM fun occurrence =>
      Handling.replace occurrence.span occurrence.keyword.operator.toList .discarded
    return (secondQuantifier? occurrences).toList.map fun span =>
      { visit.diagnostic span secondQuantifierMessage with context := String.ofList text }

/-- The phase that replaces the keywords in all formulas. -/
def phase : Phase Unit :=
  let empty : Phase Unit := { name := "formulas", start := () }
  empty.onEnter .formula [.query, .formula] reviseFormula

/-- Replace keywords one after the other. -/
def replaceAll (occurrences : List Occurrence) (revision : Revision) : Except EditError Revision :=
  occurrences.foldlM (fun revision occurrence =>
    revision.replace occurrence.span occurrence.keyword.operator.toList .discarded) revision

/-- Replace the keywords in a query; a query without keywords is left alone. -/
def reviseQuery (query : Text) : Except Fault (Option RevisedQuery) :=
  let occurrences := occurrencesIn query
  match replaceAll occurrences (.ofText query) with
  | .error error => .error (.edit error)
  | .ok revision =>
    if revision.hasEdits then
      let diagnostics := (secondQuantifier? occurrences).toList.map fun span =>
        Diagnostic.atSpan queryPath query span secondQuantifierMessage
      .ok (some { revision, diagnostics })
    else .ok none

/-- The extension. -/
def extension : Extension :=
  { id, passes := [phase.toPass], reviseQuery }

end Retrace.TextualQuantifiers
