import Retrace.Grammar.Basic
import Retrace.Grammar.Tree
import Retrace.Text.Cursor
import Retrace.Text.NameChar

/-!
# Terminals

Literals and tokens are matched after whatever may be skipped. A terminal that begins with a name
character may not stand right behind one, and a terminal that ends with one not right before one, so
`int` is not the beginning of `integer`.
-/

namespace Retrace

/-- A matched terminal: where it starts and the place behind it. -/
structure Terminal where
  /-- The place where the matched text starts. -/
  start : Cursor
  /-- The place behind the matched text. -/
  behind : Cursor

namespace Terminal

/-- Where the matched text stands. -/
def span (terminal : Terminal) : Span :=
  ⟨terminal.start.offset, terminal.behind.offset⟩

/-- The matched text. -/
def text (terminal : Terminal) : Text :=
  terminal.start.rest.take (terminal.start.left - terminal.behind.left)

/-- The matched text is part of a longer name. -/
def isGlued (terminal : Terminal) : Bool :=
  !terminal.span.isEmpty &&
    ((terminal.start.peek?.any Text.isNameChar && terminal.start.before.any Text.isNameChar) ||
      (terminal.behind.before.any Text.isNameChar && terminal.behind.peek?.any Text.isNameChar))

end Terminal

namespace Grammar

/-- The place behind whatever may be skipped. -/
def skipped (grammar : Grammar) (cursor : Cursor) : Cursor :=
  cursor.advance ((grammar.skip.length? cursor.rest).getD 0)

/-- Match a terminal after whatever may be skipped; `length?` tells how many characters it takes
from the start of a text. -/
def terminal? (grammar : Grammar) (length? : Text → Option Nat) (cursor : Cursor) :
    Option Terminal :=
  let start := grammar.skipped cursor
  match length? start.rest with
  | some length =>
    let terminal := Terminal.mk start (start.advance length)
    if terminal.isGlued then none else some terminal
  | none => none

/-- Match a literal. -/
def literal? (grammar : Grammar) (text : Text) (cursor : Cursor) : Option Terminal :=
  grammar.terminal? (Shape.word? text) cursor

/-- Match a token, which takes at least one character. -/
def token? (grammar : Grammar) (index : Nat) (cursor : Cursor) : Option Terminal :=
  match grammar.tokens[index]? with
  | some token => grammar.terminal? (fun text => (token.shape.length? text).filter (0 < ·)) cursor
  | none => none

/-- The name of a token. -/
def tokenName (grammar : Grammar) (index : Nat) : String :=
  match grammar.tokens[index]? with
  | some token => token.name
  | none => ""

end Grammar

end Retrace
