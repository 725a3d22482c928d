import SelectorPath.Text.Utf8
import SelectorPath.Token.Lexicon

/-!
Cursors: places in a text, and the tokens found there.
-/

namespace SelectorPath

/-- A place in a text: how many bytes stand before it, and the text after it. -/
structure Cursor where
  offset : Nat
  rest : List Char
  deriving DecidableEq, Repr

namespace Cursor

/-- The place before the first character. -/
def start (text : String) : Cursor := ⟨0, text.toList⟩

def atEnd (c : Cursor) : Bool := c.rest.isEmpty

/-- The place after `taken`, with `rest` ahead. -/
def advance (c : Cursor) (taken rest : List Char) : Cursor :=
  ⟨c.offset + Text.byteLength taken, rest⟩

end Cursor

namespace Lexicon

/-- The token of a kind at a place, and the place after it. -/
def token (lexicon : Lexicon) (kind : TokenKind) (c : Cursor) : Option (List Char × Cursor) :=
  ((lexicon kind).run c.rest).map fun (text, rest) => (text, c.advance text rest)

/-- Whether a token of a kind stands at a place. -/
def peek (lexicon : Lexicon) (kind : TokenKind) (c : Cursor) : Bool :=
  (lexicon.token kind c).isSome

/-- The place after a token of a kind, or the same place if there is none. -/
def skip (lexicon : Lexicon) (kind : TokenKind) (c : Cursor) : Cursor :=
  match lexicon.token kind c with
  | none => c
  | some (_, after) => after

end Lexicon

end SelectorPath
