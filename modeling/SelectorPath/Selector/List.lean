import SelectorPath.Selector.Reader

/-!
Selector lists. Under the strict policy one bad member spoils the list; otherwise bad
members are left out, and reading goes on after the next comma that is not in brackets,
parentheses or quotes.
-/

namespace SelectorPath

inductive ListPolicy where
  | strict
  | skipInvalid
  deriving DecidableEq, Repr

/-- A member that was left out: its text and what is wrong with it. -/
structure Skipped where
  text : String
  error : SelectorError
  deriving DecidableEq, Repr

structure SelectorList where
  selectors : List Selector
  skipped : List Skipped
  deriving Repr

/-- The text up to the next comma outside of brackets, parentheses and quotes, and the text
from there on. In quotes a backslash takes the next character with it. -/
def splitAtComma : (depth : Nat) → (quote : Option Char) → List Char → List Char × List Char
  | _, _, [] => ([], [])
  | depth, some quote, '\\' :: c :: rest =>
    let (text, after) := splitAtComma depth (some quote) rest
    ('\\' :: c :: text, after)
  | depth, some quote, c :: rest =>
    let (text, after) := splitAtComma depth (if c = quote then none else some quote) rest
    (c :: text, after)
  | depth, none, c :: rest =>
    if c = ',' ∧ depth = 0 then ([], c :: rest)
    else
      let quote := if c = '"' ∨ c = '\'' then some c else none
      let depth := if c = '(' ∨ c = '[' then depth + 1
        else if c = ')' ∨ c = ']' then depth - 1 else depth
      let (text, after) := splitAtComma depth quote rest
      (c :: text, after)

namespace SelectorList

/-- A member of a list as it was read. -/
inductive Member where
  | kept (selector : Selector)
  | skipped (member : Skipped)

def Member.kept? : Member → Option Selector
  | .kept selector => some selector
  | .skipped _ => none

def Member.skipped? : Member → Option Skipped
  | .kept _ => none
  | .skipped member => some member

/-- Leaves out the member that starts at a place. -/
def skipMember (c : Cursor) (error : SelectorError) : Member × Cursor :=
  let (text, rest) := splitAtComma 0 none c.rest
  (.skipped ⟨String.ofList (Text.trim text), error⟩, c.advance text rest)

/-- Whether a member can end at a place: at a comma, or where only white space is left. -/
def atBoundary (lexicon : Lexicon) (c : Cursor) : Bool :=
  lexicon.peek .comma c || (lexicon.skip .spaces c).atEnd

/-- The error that text is left over after white space. -/
def trailing (lexicon : Lexicon) (c : Cursor) : SelectorError :=
  let c := lexicon.skip .spaces c
  .trailing c.offset (String.ofList c.rest)

/-- The member at a place. -/
def readMember (lexicon : Lexicon) (policy : ListPolicy) (c : Cursor) :
    Except SelectorError (Member × Cursor) :=
  match policy, Selector.read lexicon c with
  | .strict, .ok (selector, after) => .ok (.kept selector, after)
  | .strict, .error e => .error e
  | .skipInvalid, .ok (selector, after) =>
    if atBoundary lexicon after then .ok (.kept selector, after)
    else .ok (skipMember c (trailing lexicon after))
  | .skipInvalid, .error e => .ok (skipMember c e)

/-- The list of the members. If none was kept, what is wrong with the first is wrong with
the list. -/
def ofMembers (members : List Member) : Except SelectorError SelectorList :=
  match members.filterMap Member.kept?, members.filterMap Member.skipped? with
  | [], first :: _ => .error first.error
  | selectors, skipped => .ok ⟨selectors, skipped⟩

/-- The place after the comma at a place. -/
def comma (lexicon : Lexicon) (c : Cursor) : Option Cursor :=
  (lexicon.token .comma c).map Prod.snd

/-- The members at a place, with commas between them. -/
def readMembers (lexicon : Lexicon) (policy : ListPolicy) (c : Cursor) :
    Except SelectorError (List Member × Cursor) :=
  c.readSeparated (comma lexicon) (readMember lexicon policy)

/-- The list of the members at a place. -/
def read (lexicon : Lexicon) (policy : ListPolicy) (c : Cursor) :
    Except SelectorError (SelectorList × Cursor) := do
  let (members, c) ← readMembers lexicon policy c
  let list ← ofMembers members
  return (list, c)

end SelectorList

end SelectorPath
