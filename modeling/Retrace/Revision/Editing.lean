import Retrace.Revision.Basic

/-!
# Edits as requests

`Editing α` is a computation that may ask for edits of one text and learns about each whether it was
refused. It cannot do anything else to the text. `Editing.carryOut` makes the edits in a revision.
-/

namespace Retrace

/-- A computation of a value that asks for edits of one text. -/
inductive Editing (α : Type) where
  /-- The value is known. -/
  | done (result : α)
  /-- Ask for an edit, and go on knowing why it was refused, if it was. -/
  | replace (range : Span) (inserted : Text) (inside : Inside) (next : Option EditError → Editing α)

namespace Editing

variable {α β : Type}

/-- Go on with another computation. -/
def andThen (editing : Editing α) (continuation : α → Editing β) : Editing β :=
  match editing with
  | done result => continuation result
  | replace range inserted inside next =>
    .replace range inserted inside fun refusal? => (next refusal?).andThen continuation

instance : Monad Editing where
  pure := done
  bind := andThen

/-- Ask for an edit and find out why it was refused, if it was. -/
def ask (range : Span) (inserted : Text) (inside : Inside) : Editing (Option EditError) :=
  .replace range inserted inside .done

/-- Make the edits in a revision of a text. No revision is begun before the first edit is asked for;
without a text every edit is refused with the fault `textless`. -/
def carryOut (text? : Option Text) (textless : EditError) :
    Editing α → Option Revision → α × Option Revision
  | done result, revision? => (result, revision?)
  | replace range inserted inside next, revision? =>
    match text? with
    | none => (next (some textless)).carryOut text? textless revision?
    | some text =>
      let revision := revision?.getD (.ofText text)
      match revision.replace range inserted inside with
      | .ok revised => (next none).carryOut text? textless (some revised)
      | .error error => (next (some error)).carryOut text? textless (some revision)

end Editing

end Retrace
