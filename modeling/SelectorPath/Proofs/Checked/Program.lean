import SelectorPath.Compiler
import SelectorPath.Proofs.Checked.Basic

/-!
The compiler on byte positions. A place is a text and an offset into it, and all that is read there
is cut out of the text; matchers stand in a table and are taken from it by the number of their
kind. Every cut, entry and sum is checked, and so is that loops move on.
-/

namespace SelectorPath

open Checked

/-- The length in bytes of the token at the front of a text. -/
def Matcher.length? (matcher : Matcher) (text : String) : Option Nat :=
  (matcher.run text.toList).map fun found => Text.byteLength found.1

/-- An offset into a text. -/
structure BytePlace where
  source : String
  offset : Nat

namespace BytePlace

def start (text : String) : BytePlace := ⟨text, 0⟩

def rest (p : BytePlace) : Checked String := slice p.source p.offset p.source.utf8ByteSize

def atEnd (p : BytePlace) : Bool := p.offset == p.source.utf8ByteSize

/-- The number of bytes after a place. -/
def left (p : BytePlace) : Nat := p.source.utf8ByteSize - p.offset

def advance (p : BytePlace) (length : Nat) : Checked BytePlace := do
  let offset ← add p.source.utf8ByteSize p.offset length
  return ⟨p.source, offset⟩

/-! ## Loops -/

/-- The items from a place on, each with the offset at which it starts. -/
def readWhile {α : Type} (item : BytePlace → Checked (Option (α × BytePlace))) (p : BytePlace) :
    Checked (List (Nat × α) × BytePlace) :=
  match item p with
  | .panicked panic => .panicked panic
  | .failed e => .failed e
  | .done none => .done ([], p)
  | .done (some (a, after)) =>
    if after.left < p.left then do
      let (rest, last) ← readWhile item after
      return ((p.offset, a) :: rest, last)
    else .panicked .stalled
termination_by p.left

/-- One or more items with separators between them. -/
def readSeparated {α : Type} (separator : BytePlace → Checked (Option BytePlace))
    (item : BytePlace → Checked (α × BytePlace)) (p : BytePlace) : Checked (List α × BytePlace) :=
  match item p with
  | .panicked panic => .panicked panic
  | .failed e => .failed e
  | .done (a, after) =>
    match separator after with
    | .panicked panic => .panicked panic
    | .failed e => .failed e
    | .done none => .done ([a], after)
    | .done (some next) =>
      if next.left < p.left then do
        let (rest, last) ← readSeparated separator item next
        return (a :: rest, last)
      else .panicked .stalled
termination_by p.left

variable (table : List Matcher)

/-! ## Tokens -/

/-- The token of a kind at a place, and the place after it. -/
def token (kind : TokenKind) (p : BytePlace) : Checked (Option (String × BytePlace)) := do
  let rest ← p.rest
  let matcher ← get table kind.ctorIdx
  match matcher.length? rest with
  | none => return none
  | some length =>
    let text ← slice rest 0 length
    let after ← p.advance length
    return some (text, after)

def peek (kind : TokenKind) (p : BytePlace) : Checked Bool := do
  let found ← p.token table kind
  return found.isSome

def skip (kind : TokenKind) (p : BytePlace) : Checked BytePlace := do
  match ← p.token table kind with
  | none => return p
  | some (_, after) => return after

def expect (kind : TokenKind) (expected : Expectation) (p : BytePlace) : Checked BytePlace := do
  match ← p.token table kind with
  | none => .failed (.unexpected p.offset expected)
  | some (_, after) => return after

/-! ## Formulas -/

def signed (magnitude : Int64) (negative : Bool) : Checked Int64 :=
  if negative then negate magnitude else return magnitude

def signedInteger (digits : String) (negative : Bool) (p : BytePlace) : Checked Int64 :=
  match Text.int64? digits.toList with
  | none => .failed (.unexpected p.offset .integer)
  | some magnitude => signed magnitude negative

def readConstant (coefficient : Int64) (p : BytePlace) : Checked (Formula × BytePlace) := do
  let probe ← p.skip table .spaces
  match ← probe.token table .sign with
  | none => return (.linear coefficient 0, p)
  | some (sign, after) =>
    let p ← after.skip table .spaces
    match ← p.token table .number with
    | none => .failed (.unexpected p.offset .constant)
    | some (digits, after) =>
      let constant ← signedInteger digits (sign == "-") p
      return (.linear coefficient constant, after)

def readSign (p : BytePlace) : Checked (Bool × BytePlace) := do
  match ← p.token table .sign with
  | some (sign, after) => return (sign == "-", after)
  | none => return (false, p)

def readDigits (p : BytePlace) : Checked (Option String × BytePlace) := do
  match ← p.token table .number with
  | some (digits, after) => return (some digits, after)
  | none => return (none, p)

def readLinear (p : BytePlace) : Checked (Formula × BytePlace) := do
  let (negative, afterSign) ← p.readSign table
  let (digits, afterDigits) ← afterSign.readDigits table
  match ← afterDigits.token table .n, digits with
  | none, none => .failed (.unexpected afterSign.offset .formula)
  | none, some digits =>
    let constant ← signedInteger digits negative afterSign
    return (.linear 0 constant, afterDigits)
  | some (_, afterN), none =>
    let coefficient ← signed 1 negative
    afterN.readConstant table coefficient
  | some (_, afterN), some digits =>
    let coefficient ← signedInteger digits negative afterSign
    afterN.readConstant table coefficient

def readFormulaBody (p : BytePlace) : Checked (Formula × BytePlace) := do
  match ← p.token table .even with
  | some (_, after) => return (.even, after)
  | none =>
    match ← p.token table .odd with
    | some (_, after) => return (.odd, after)
    | none => p.readLinear table

def readFormula (p : BytePlace) : Checked (Formula × BytePlace) := do
  let p ← p.expect table .leftParen .formulaOpening
  let p ← p.skip table .spaces
  let (formula, p) ← p.readFormulaBody table
  let p ← p.skip table .spaces
  let p ← p.expect table .rightParen .formulaClosing
  return (formula, p)

/-! ## Attribute tests -/

/-- The value of a text in quotes, each of which is one byte. -/
def unquote (quoted : String) : Checked String := do
  let last ← sub quoted.utf8ByteSize 1
  let body ← slice quoted 1 last
  return String.ofList (Quoted.unescape body.toList)

def readValue (p : BytePlace) : Checked (String × BytePlace) := do
  match ← p.token table .attributeValue with
  | some (quoted, after) =>
    let value ← unquote quoted
    return (value, after)
  | none =>
    match ← p.token table .identifier with
    | some (name, after) => return (name, after)
    | none => .failed (.unexpected p.offset .attributeValue)

def readComparison (name : String) (p : BytePlace) : Checked (AttributeTest × BytePlace) := do
  match ← p.token table .rightBracket with
  | some (_, after) => return (.present name, after)
  | none =>
    match ← p.token table .attributeOperator with
    | none => .failed (.unexpected p.offset .attributeOperator)
    | some (text, after) =>
      match AttributeOperator.ofText? text.toList with
      | none => .failed (.unsupportedOperator p.offset text)
      | some operator =>
        let p ← after.skip table .spaces
        let (value, p) ← p.readValue table
        let p ← p.skip table .spaces
        let p ← p.expect table .rightBracket .attributeClosing
        return (.compare name operator value, p)

def readAttribute (p : BytePlace) : Checked (AttributeTest × BytePlace) := do
  let p ← p.expect table .leftBracket .attributeOpening
  let p ← p.skip table .spaces
  match ← p.token table .attributeName with
  | none => .failed (.unexpected p.offset .attributeName)
  | some (name, after) =>
    let p ← after.skip table .spaces
    p.readComparison table name

/-! ## Compounds -/

/-- A text without its first byte. -/
def withoutSign (text : String) : Checked String := slice text 1 text.utf8ByteSize

def readNegation (argument : BytePlace → Checked (Compound × BytePlace)) (p : BytePlace) :
    Checked (Qualifier × BytePlace) := do
  let p ← p.expect table .leftParen .negationOpening
  let (compound, p) ← argument p
  let p ← p.skip table .spaces
  let p ← p.expect table .rightParen .negationClosing
  return (.negation compound.element compound.qualifiers, p)

/-- A qualifier written as a pseudo-class. It is only read where one stands. -/
def readPseudoClass (argument : Option (BytePlace → Checked (Compound × BytePlace))) (p : BytePlace) :
    Checked (Qualifier × BytePlace) := do
  match ← p.token table .pseudoClass with
  | none => .panicked .unreachable
  | some (text, after) =>
    let name ← withoutSign text
    match PseudoClass.ofName? (String.ofList (name.toList.map Char.toLower)) with
    | none => .failed (.unsupportedPseudoClass p.offset name)
    | some (.place place among) => return (.place place among, after)
    | some (.nth among) =>
      let (formula, p) ← after.readFormula table
      return (.nth formula among, p)
    | some .negation =>
      match argument with
      | none => .failed (.nestedTooDeep p.offset maxNegationDepth)
      | some argument => after.readNegation table argument

def readQualifier (argument : Option (BytePlace → Checked (Compound × BytePlace))) (p : BytePlace) :
    Checked (Option (Qualifier × BytePlace)) := do
  match ← p.token table .className with
  | some (text, after) =>
    let name ← withoutSign text
    return some (.className name, after)
  | none =>
    match ← p.token table .id with
    | some (text, after) =>
      let name ← withoutSign text
      return some (.id name, after)
    | none =>
      if ← p.peek table .pseudoClass then
        let found ← p.readPseudoClass table argument
        return some found
      else if ← p.peek table .leftBracket then
        let (test, after) ← p.readAttribute table
        return some (.attributeTest test, after)
      else return none

def readElement (p : BytePlace) : Checked (Option ElementTest × BytePlace) := do
  match ← p.token table .universal with
  | some (_, after) => return (some .universal, after)
  | none =>
    match ← p.token table .element with
    | some (name, after) => return (some (.named name), after)
    | none => return (none, p)

def readCompoundWith
    (argument : Option String → Option (BytePlace → Checked (Compound × BytePlace)))
    (enclosing : Option String) (p : BytePlace) : Checked (Compound × BytePlace) := do
  let start ← p.skip table .spaces
  let (element, p) ← start.readElement table
  let name := (ElementTest.name? element).or enclosing
  let (qualifiers, p) ← p.readWhile (readQualifier table (argument name))
  -- Of the place where the compound starts, only the offset is in its errors.
  let compound ← ofExcept (Compound.check ⟨start.offset, []⟩ element name qualifiers)
  return (compound, p)

def readNested : (levels : Nat) → (enclosing : Option String) → BytePlace → Checked (Compound × BytePlace)
  | 0 => readCompoundWith table fun _ => none
  | levels + 1 => readCompoundWith table fun name => some (readNested levels name)

def readCompound (p : BytePlace) : Checked (Compound × BytePlace) :=
  readNested table maxNegationDepth none p

/-! ## Selectors -/

/-- The combinator with the first of the signs that stands at a place. -/
def readCombinatorSign (p : BytePlace) :
    List (TokenKind × Combinator) → Checked (Option (Combinator × BytePlace))
  | [] => return none
  | (kind, combinator) :: rest => do
    match ← p.token table kind with
    | some (_, after) => return some (combinator, after)
    | none => readCombinatorSign p rest

def readCombinator (p : BytePlace) : Checked (Option (Combinator × BytePlace)) := do
  match ← p.readCombinatorSign table Combinator.signs with
  | some found => return some found
  | none =>
    match ← p.token table .ancestorOf with
    | none => return none
    | some (_, after) =>
      if after.atEnd then return none
      else if ← p.peek table .comma then return none
      else if ← after.peek table .rightParen then return none
      else return some (.descendant, after)

def readStep (p : BytePlace) : Checked (Option (Step × BytePlace)) := do
  match ← p.readCombinator table with
  | none => return none
  | some (combinator, after) =>
    let (compound, last) ← after.readCompound table
    return some (⟨combinator, compound⟩, last)

def readScope (p : BytePlace) : Checked (Combinator × BytePlace) := do
  match ← p.token table .parentOf with
  | some (_, after) => return (.child, after)
  | none => return (.descendant, p)

def readSelector (p : BytePlace) : Checked (Selector × BytePlace) := do
  let (combinator, p) ← p.readScope table
  let (compound, p) ← p.readCompound table
  let (steps, p) ← p.readWhile (readStep table)
  return (⟨⟨combinator, compound⟩ :: steps.map Prod.snd⟩, p)

/-! ## Lists -/

/-- The byte position of the next comma outside of brackets, parentheses and quotes, among the
characters from position `index` on, or else `length`. -/
def commaPosition (length : Nat) : (index depth : Nat) → (quote : Option Char) →
    (escaped : Bool) → List Char → Checked Nat
  | _, _, _, _, [] => return length
  | index, depth, some quote, escaped, c :: rest =>
    let index := index + c.utf8Size
    if escaped then commaPosition length index depth (some quote) false rest
    else if c = '\\' then commaPosition length index depth (some quote) true rest
    else commaPosition length index depth (if c = quote then none else some quote) false rest
  | index, depth, none, escaped, c :: rest =>
    if c = ',' ∧ depth = 0 then return index
    else if c = '(' ∨ c = '[' then do
      let depth ← add length depth 1
      commaPosition length (index + c.utf8Size) depth none escaped rest
    else
      let depth := if c = ')' ∨ c = ']' then depth - 1 else depth
      let quote := if c = '"' ∨ c = '\'' then some c else none
      commaPosition length (index + c.utf8Size) depth quote escaped rest

/-- The place of the next comma after a member that cannot be read. -/
def resync (p : BytePlace) : Checked BytePlace := do
  let rest ← p.rest
  let length ← commaPosition rest.utf8ByteSize 0 0 none false rest.toList
  p.advance length

def skipMember (p : BytePlace) (error : SelectorError) : Checked (SelectorList.Member × BytePlace) := do
  let last ← p.resync
  let rest ← p.rest
  let length ← sub last.offset p.offset
  let text ← slice rest 0 length
  return (.skipped ⟨String.ofList (Text.trim text.toList), error⟩, last)

def atBoundary (p : BytePlace) : Checked Bool := do
  if ← p.peek table .comma then return true
  else
    let after ← p.skip table .spaces
    return after.atEnd

/-- The error that text is left over. -/
def trailing (p : BytePlace) : Checked SelectorError := do
  let rest ← p.rest
  return .trailing p.offset rest

def readMember (policy : ListPolicy) (p : BytePlace) : Checked (SelectorList.Member × BytePlace) :=
  match policy, p.readSelector table with
  | _, .panicked panic => .panicked panic
  | .strict, .done (selector, after) => .done (.kept selector, after)
  | .strict, .failed e => .failed e
  | .skipInvalid, .done (selector, after) => do
    if ← after.atBoundary table then return (.kept selector, after)
    else
      let last ← after.skip table .spaces
      let e ← last.trailing
      p.skipMember e
  | .skipInvalid, .failed e => p.skipMember e

/-- The list of the members, or else the error of the first one. -/
def ofMembers (members : List SelectorList.Member) : Checked SelectorList := do
  let selectors := members.filterMap SelectorList.Member.kept?
  let skipped := members.filterMap SelectorList.Member.skipped?
  if selectors.isEmpty && !skipped.isEmpty then
    let first ← get skipped 0
    .failed first.error
  else return ⟨selectors, skipped⟩

def readComma (p : BytePlace) : Checked (Option BytePlace) := do
  let found ← p.token table .comma
  return found.map Prod.snd

def readList (policy : ListPolicy) (p : BytePlace) : Checked (SelectorList × BytePlace) := do
  let (members, p) ← p.readSeparated (readComma table) (readMember table policy)
  let list ← ofMembers members
  return (list, p)

end BytePlace

namespace Checked

variable (table : List Matcher)

/-- The list that a whole text holds. -/
def ofText (options : Options) (text : String) : Checked SelectorList := do
  let length := text.utf8ByteSize
  match options.maxLength with
  | some limit => if limit < length then .failed (.tooLong length limit)
  | none => pure ()
  let (list, p) ← BytePlace.readList table options.policy (.start text)
  let last ← p.skip table .spaces
  if last.atEnd then return list
  else
    let e ← last.trailing
    .failed e

/-- The XPath text for the selector list that a text holds. -/
def compile (options : Options) (text : String) : Checked String := do
  let list ← ofText table options text
  return SelectorList.xpath options.anchor list.selectors

end Checked

end SelectorPath
