import SelectorPath.Reader
import SelectorPath.Selector.Basic
import SelectorPath.Selector.Quoted

/-!
Reading attribute tests: a name in brackets, alone or compared with a value.
-/

namespace SelectorPath

namespace AttributeTest

/-- The value of an attribute test, in quotes or as an identifier. -/
def readValue (lexicon : Lexicon) (c : Cursor) : Except SelectorError (String × Cursor) :=
  match lexicon.token .attributeValue c with
  | some (quoted, after) => .ok (Quoted.value quoted, after)
  | none =>
    match lexicon.token .identifier c with
    | some (name, after) => .ok (String.ofList name, after)
    | none => .error (.unexpected c.offset .attributeValue)

/-- The rest of an attribute test after the attribute's name. -/
def readComparison (lexicon : Lexicon) (name : String) (c : Cursor) :
    Except SelectorError (AttributeTest × Cursor) :=
  match lexicon.token .rightBracket c with
  | some (_, after) => .ok (.present name, after)
  | none =>
    match lexicon.token .attributeOperator c with
    | none => .error (.unexpected c.offset .attributeOperator)
    | some (text, after) =>
      match AttributeOperator.ofText? text with
      | none => .error (.unsupportedOperator c.offset (String.ofList text))
      | some operator => do
        let (value, c) ← readValue lexicon (lexicon.skip .spaces after)
        let c ← lexicon.expect .rightBracket .attributeClosing (lexicon.skip .spaces c)
        return (.compare name operator value, c)

/-- An attribute test in brackets. -/
def read (lexicon : Lexicon) (c : Cursor) : Except SelectorError (AttributeTest × Cursor) := do
  let c ← lexicon.expect .leftBracket .attributeOpening c
  let c := lexicon.skip .spaces c
  match lexicon.token .attributeName c with
  | none => .error (.unexpected c.offset .attributeName)
  | some (name, after) =>
    readComparison lexicon (String.ofList name) (lexicon.skip .spaces after)

end AttributeTest

end SelectorPath
