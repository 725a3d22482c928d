import SelectorPath.Pattern.Match
import SelectorPath.Token.Kind

/-!
Lexicons: which texts make a token of which kind. A lexicon may hold any matchers, and all
that reads selectors needs of them is that a token is not empty.
-/

namespace SelectorPath

/-- A rule that takes a token from the front of a text, if one stands there. -/
structure Matcher where
  run : List Char → Option (List Char × List Char)
  /-- A token is not empty, and with the rest it makes up the text. -/
  sound : ∀ {s token rest}, run s = some (token, rest) → token ≠ [] ∧ token ++ rest = s

/-- The matcher of a pattern. -/
def Pattern.matcher (p : Pattern) : Matcher := ⟨p.take?, take?_sound⟩

/-- A matcher for each kind of token. -/
def Lexicon := TokenKind → Matcher

namespace Lexicon

/-- The lexicon of the selector notation. -/
def standard : Lexicon := fun kind => kind.pattern.matcher

/-- The lexicon with another matcher for one kind. -/
def set (lexicon : Lexicon) (kind : TokenKind) (matcher : Matcher) : Lexicon :=
  fun k => if k = kind then matcher else lexicon k

/-- The lexicon with the patterns that the texts describe, set in order. The first text
that describes no pattern is an error, given by its kind. -/
def withPatterns (lexicon : Lexicon) : List (TokenKind × String) → Except TokenKind Lexicon
  | [] => .ok lexicon
  | (kind, text) :: rest =>
    match Pattern.ofText? text with
    | none => .error kind
    | some p => withPatterns (lexicon.set kind p.matcher) rest

/-- What is said of a text that describes no pattern. -/
def patternMessage (kind : TokenKind) : String :=
  s!"invalid pattern for {kind.name} token: error parsing pattern 0"

end Lexicon

end SelectorPath
