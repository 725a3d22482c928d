import SelectorPath.Selector.Error
import SelectorPath.Token.Cursor

/-!
Reading at a cursor. A reader gives what it read and the place after it; loops stop at an
item that takes nothing of the text, which no reader of this library does.
-/

namespace SelectorPath

/-- What is read at a place and the place after it, or why it cannot be read. -/
abbrev Reader (α : Type) := Cursor → Except SelectorError (α × Cursor)

namespace Lexicon

/-- The place after a token that has to be there. -/
def expect (lexicon : Lexicon) (kind : TokenKind) (expected : Expectation) (c : Cursor) :
    Except SelectorError Cursor :=
  match lexicon.token kind c with
  | some (_, after) => .ok after
  | none => .error (.unexpected c.offset expected)

end Lexicon

namespace Cursor

/-- The items from a place on, each with the offset at which it starts, up to the first
place where none starts. -/
def readWhile {α : Type} (item : Cursor → Except SelectorError (Option (α × Cursor)))
    (c : Cursor) : Except SelectorError (List (Nat × α) × Cursor) :=
  match item c with
  | .error e => .error e
  | .ok none => .ok ([], c)
  | .ok (some (a, after)) =>
    if after.rest.length < c.rest.length then
      match readWhile item after with
      | .error e => .error e
      | .ok (rest, last) => .ok ((c.offset, a) :: rest, last)
    else .ok ([], c)
termination_by c.rest.length

/-- One or more items with separators between them. -/
def readSeparated {α : Type} (separator : Cursor → Option Cursor) (item : Reader α)
    (c : Cursor) : Except SelectorError (List α × Cursor) :=
  match item c with
  | .error e => .error e
  | .ok (a, after) =>
    match separator after with
    | none => .ok ([a], after)
    | some next =>
      if next.rest.length < c.rest.length then
        match readSeparated separator item next with
        | .error e => .error e
        | .ok (rest, last) => .ok (a :: rest, last)
      else .ok ([a], after)
termination_by c.rest.length

end Cursor

end SelectorPath
