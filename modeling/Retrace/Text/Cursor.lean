import Retrace.Text.Basic

/-!
# Cursors

A cursor is a place between two characters of a text. It carries what lies ahead and the character
just before it, so that readers and matchers never have to look a position up.
-/

namespace Retrace

/-- A place between two characters of a text. -/
structure Cursor where
  /-- Byte offset of the place. -/
  offset : Nat
  /-- The character just before the place, if it counts. -/
  before : Option Char
  /-- The text ahead. -/
  rest : Text
  /-- Number of characters ahead. -/
  left : Nat
  /-- The count agrees with the text ahead. -/
  length_rest : rest.length = left

namespace Cursor

/-- The start of a text. -/
def ofText (text : Text) : Cursor :=
  ⟨0, none, text, text.length, rfl⟩

/-- The place behind the next character. -/
def next (cursor : Cursor) : Cursor :=
  match cursor with
  | ⟨offset, _, c :: rest, left, h⟩ =>
    ⟨offset + c.utf8Size, some c, rest, left - 1, by rw [← h]; rfl⟩
  | ⟨offset, before, [], left, h⟩ => ⟨offset, before, [], left, h⟩

/-- The place behind the next `count` characters. -/
def advance (cursor : Cursor) : (count : Nat) → Cursor
  | 0 => cursor
  | count + 1 => cursor.next.advance count

/-- The next character. -/
def peek? (cursor : Cursor) : Option Char :=
  cursor.rest.head?

/-- Worker of `places`: `passed` holds the places left behind, the latest first. -/
def placesFrom (passed : List Cursor) (cursor : Cursor) : (steps : Nat) → List Cursor
  | 0 => (cursor :: passed).reverse
  | steps + 1 => placesFrom (cursor :: passed) cursor.next steps

/-- This place and all later ones, ending with the end of the text. -/
def places (cursor : Cursor) : List Cursor :=
  placesFrom [] cursor cursor.left

end Cursor

end Retrace
