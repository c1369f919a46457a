import Retrace.Extension
import Retrace.Grammar.Compile
import Retrace.Grammar.Scan
import Retrace.Text.Digits

/-!
# Array initialisers

The extension `array-init` lets an array be initialised with a single value: in a declaration
`int a[3] = {0};` the value is repeated for every element, as in `{0, 0, 0}`. The size is a number
or an integer constant declared before, in the same declarations or globally.

The expansion only repeats what was written, so positions inside it are traced back to the value.
-/

namespace Retrace.ArrayInit

open Description

/-- The name of the extension. -/
def id : String := "array-init"

/-- Arrays larger than this are left as they are written. -/
def sizeLimit : Int := 65536

/-- Numbers in declarations are below two to the power of 63. -/
def numberLimit : Nat := 9223372036854775808

/-- The grammar with these definitions. -/
def grammarOf (definitions : List Definition) : Grammar :=
  (Grammar.ofDefinitions definitions).toOption.getD .empty

/-- Declarations of arrays that are initialised with a single value. -/
def arrayDefinitions : List Definition := [
  { name := "decl"
    body := .rule (.seq [.loop () (named "qualifier"), named "IDENT", named "IDENT", quoted "[",
      named "size", quoted "]", quoted "=", quoted "\x7b", named "value", quoted "\x7d",
      quoted ";"]) },
  { name := "qualifier"
    body := .rule (.either [quoted "const", quoted "meta"]) },
  { name := "size"
    body := .rule (.either [named "INT", named "IDENT"]) },
  { name := "value"
    body := .rule (.either [.seq [.optional (quoted "-"), named "INT"], named "BOOL",
      named "IDENT"]) }]

/-- The grammar of array declarations. -/
def arrays : Grammar :=
  grammarOf arrayDefinitions

/-- Declarations of integer constants. -/
def constantDefinitions : List Definition := [
  { name := "constant"
    body := .rule (.seq [quoted "const", quoted "int", named "IDENT", quoted "=",
      .optional (quoted "-"), named "INT", quoted ";"]) }]

/-- The grammar of integer constants. -/
def constants : Grammar :=
  grammarOf constantDefinitions

/-- The integer constants of a scope, the latest first. -/
abbrev Scope := List (Text × Int)

/-- The scopes around an element, the innermost first. -/
abbrev Scopes := List Scope

namespace Scopes

/-- The value of a constant. -/
def lookup? (scopes : Scopes) (name : Text) : Option Int :=
  scopes.findSome? fun scope => scope.lookup name

/-- Define a constant in the innermost scope. -/
def define (scopes : Scopes) (name : Text) (value : Int) : Scopes :=
  match scopes with
  | [] => [[(name, value)]]
  | scope :: outer => ((name, value) :: scope) :: outer

end Scopes

/-- An integer constant that a declaration defines. -/
structure Constant where
  /-- Where its definition begins. -/
  start : Nat
  /-- Its name. -/
  name : Text
  /-- Its value. -/
  value : Int
  deriving DecidableEq, Repr

/-- The constant that a tree of the grammar `constants` defines; there is none if its value is too
large. -/
def constantOf? (tree : ParseTree) : Option Constant := do
  let name ← tree.leaf? "IDENT"
  let digits ← tree.leaf? "INT"
  let value ← Text.numeral? 10 numberLimit digits.text
  return ⟨tree.span.start, name.text, if (tree.leaf? "-").isSome then -value else value⟩

/-- The integer constants that a text defines, in order. -/
def constantsIn (text : Text) : List Constant :=
  (constants.findAll text).filterMap constantOf?

/-- The value of a constant for an array declared at `before`: the latest definition before it in
the same text, or else the one in the scopes around. -/
def value? (locals : List Constant) (scopes : Scopes) (before : Nat) (name : Text) : Option Int :=
  match locals.reverse.find? fun constant => constant.start < before && constant.name = name with
  | some constant => some constant.value
  | none => scopes.lookup? name

/-- An array declaration with a single value. -/
structure Declaration where
  /-- Where it begins. -/
  start : Nat
  /-- Where its size stands. -/
  size : Span
  /-- Where its value stands. -/
  value : Span
  deriving DecidableEq, Repr

/-- The declaration that a tree of the grammar `arrays` stands for. -/
def declarationOf? (tree : ParseTree) : Option Declaration := do
  let size ← tree.find? "size"
  let value ← tree.find? "value"
  return ⟨tree.span.start, size.span, value.span⟩

/-- The array declarations with a single value in a text, in order. -/
def declarationsIn (text : Text) : List Declaration :=
  (arrays.findAll text).filterMap declarationOf?

/-- The characters of a span. -/
def piece (text : Text) (span : Span) : Text :=
  text.slice span.start span.stop

/-- The size of an array, if it is known. -/
def sizeOf? (text : Text) (locals : List Constant) (scopes : Scopes) (declaration : Declaration) :
    Option Int :=
  let size := piece text declaration.size
  match Text.numeral? 10 numberLimit size with
  | some number => some number
  | none => value? locals scopes declaration.start size

/-- Several copies of a value with commas between them. -/
def copies (count : Nat) (value : Text) : Text :=
  List.intercalate [',', ' '] (List.replicate count value)

/-- What comes of an array declaration. -/
inductive Verdict where
  /-- Its value is repeated for this number of elements. -/
  | repeated (count : Nat)
  /-- It stays as it is. -/
  | kept
  /-- It stays as it is because its size is not known. -/
  | unknownSize
  /-- It stays as it is because its size is not positive. -/
  | badSize (size : Int)
  deriving DecidableEq, Repr

/-- Judge an array declaration by its size. -/
def verdictOf (text : Text) (locals : List Constant) (scopes : Scopes) (declaration : Declaration) :
    Verdict :=
  match sizeOf? text locals scopes declaration with
  | none => .unknownSize
  | some size =>
    if size ≤ 0 then .badSize size
    else if size = 1 ∨ sizeLimit < size then .kept
    else .repeated size.toNat

/-- What the value of an array declaration becomes, if it is repeated. -/
def expansion? (text : Text) (declaration : Declaration) : Verdict → Option Text
  | .repeated count => some (copies count (piece text declaration.value))
  | _ => none

/-- What there is to say about the size of an array declaration. -/
def complaint? (visit : Visit) (text : Text) (declaration : Declaration) :
    Verdict → Option Diagnostic
  | .unknownSize =>
    let size := String.ofList (piece text declaration.size)
    let unknown := visit.diagnostic declaration.size
      s!"array size '{size}' is not a known integer constant"
    some { unknown with context := "the initialiser is left as written" }
  | .badSize size =>
    let bad := visit.diagnostic declaration.size s!"array size must be positive, found {size}"
    some { bad with severity := .unrecoverable }
  | _ => none

/-- The array declarations in a text with what comes of them, in order. -/
def verdictsIn (text : Text) (scopes : Scopes) : List (Declaration × Verdict) :=
  let locals := constantsIn text
  (declarationsIn text).map fun declaration =>
    (declaration, verdictOf text locals scopes declaration)

/-- Expand the array declarations in a text and define its constants. -/
def expand : Handler Scopes := fun visit =>
  match visit.text? with
  | none => return []
  | some text => do
    let verdicts := verdictsIn text (← get)
    verdicts.forM fun (declaration, verdict) =>
      match expansion? text declaration verdict with
      | some value => Handling.replace declaration.value value .anchored
      | none => pure ()
    modify fun scopes => (constantsIn text).foldl
      (fun scopes constant => scopes.define constant.name constant.value) scopes
    return verdicts.filterMap fun (declaration, verdict) =>
      complaint? visit text declaration verdict

/-- Begin the scope of a template. -/
def openScope : Handler Scopes := fun _ => do
  modify fun scopes => [] :: scopes
  return []

/-- End the scope of a template. -/
def closeScope : Handler Scopes := fun _ => do
  modify List.tail
  return []

/-- The phase that expands all array declarations. -/
def phase : Phase Scopes :=
  let empty : Phase Scopes := { name := "expand", start := [] }
  -- A template's scope surrounds its declarations, which are visited between the two handlers.
  let bracketed := (empty.onEnter .template [] openScope).onLeave .template [] closeScope
  bracketed.onEnter .declaration [] expand

/-- The extension. -/
def extension : Extension :=
  { id, passes := [phase.toPass] }

end Retrace.ArrayInit
