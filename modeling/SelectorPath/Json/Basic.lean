/-!
JSON documents and their text, laid out with an indentation of two blanks. The numbers are
integers.
-/

namespace SelectorPath

inductive Json where
  | null
  | number (value : Int)
  | string (text : String)
  | array (items : List Json)
  | object (fields : List (String × Json))
  deriving Repr

namespace Json

/-- A digit of a hexadecimal escape. -/
def hexDigit (n : Nat) : Char := if n < 10 then Char.ofNat (48 + n) else Char.ofNat (87 + n)

/-- A character in a string. Quotes, backslashes and the characters below the blank are
escaped. -/
def escapeChar (c : Char) : List Char :=
  if c = '"' then ['\\', '"']
  else if c = '\\' then ['\\', '\\']
  else if c.toNat < 0x20 then
    if c.toNat = 0x08 then ['\\', 'b']
    else if c = '\t' then ['\\', 't']
    else if c = '\n' then ['\\', 'n']
    else if c.toNat = 0x0c then ['\\', 'f']
    else if c = '\r' then ['\\', 'r']
    else ['\\', 'u', '0', '0', hexDigit (c.toNat / 16), hexDigit (c.toNat % 16)]
  else [c]

def renderString (text : String) : String :=
  "\"" ++ String.ofList (text.toList.flatMap escapeChar) ++ "\""

/-- The start of a line at a depth. -/
def lineStart (depth : Nat) : String := "\n" ++ String.ofList (List.replicate (2 * depth) ' ')

mutual

/-- The text of a document at a depth. -/
def pretty (depth : Nat) : Json → String
  | .null => "null"
  | .number n => toString n
  | .string text => renderString text
  | .array [] => "[]"
  | .array (item :: rest) =>
    "[" ++ lineStart (depth + 1) ++ pretty (depth + 1) item ++ prettyItems depth rest ++
      lineStart depth ++ "]"
  | .object [] => "\x7b\x7d"
  | .object ((key, value) :: rest) =>
    "\x7b" ++ lineStart (depth + 1) ++ renderString key ++ ": " ++ pretty (depth + 1) value ++
      prettyFields depth rest ++ lineStart depth ++ "\x7d"

/-- The items after the first of an array. -/
def prettyItems (depth : Nat) : List Json → String
  | [] => ""
  | item :: rest =>
    "," ++ lineStart (depth + 1) ++ pretty (depth + 1) item ++ prettyItems depth rest

/-- The fields after the first of an object. -/
def prettyFields (depth : Nat) : List (String × Json) → String
  | [] => ""
  | (key, value) :: rest =>
    "," ++ lineStart (depth + 1) ++ renderString key ++ ": " ++ pretty (depth + 1) value ++
      prettyFields depth rest

end

/-- The text of a document. -/
def render (j : Json) : String := pretty 0 j

end Json

end SelectorPath
