import SelectorPath.Formula.Reader
import SelectorPath.Selector.Attribute

/-!
Reading compounds. Negations nest, so the reader of a compound is given by the number of
levels that are left; a qualifier gets the reader for the arguments of its negations, or
none on the last level.
-/

namespace SelectorPath

/-- The greatest number of negations around a compound. -/
def maxNegationDepth : Nat := 32

namespace Qualifier

/-- The argument of a negation in parentheses. -/
def readNegation (lexicon : Lexicon) (argument : Reader Compound) (c : Cursor) :
    Except SelectorError (Qualifier × Cursor) := do
  let c ← lexicon.expect .leftParen .negationOpening c
  let (compound, c) ← argument c
  let c ← lexicon.expect .rightParen .negationClosing (lexicon.skip .spaces c)
  return (.negation compound.element compound.qualifiers, c)

/-- A qualifier written as a pseudo-class, in whose name the case of ASCII letters does not
count. -/
def readPseudoClass (lexicon : Lexicon) (argument : Option (Reader Compound)) (c : Cursor) :
    Except SelectorError (Qualifier × Cursor) :=
  match lexicon.token .pseudoClass c with
  | none => .error (.unexpected c.offset .pseudoClass)
  | some (text, after) =>
    match PseudoClass.ofName? (String.ofList (text.tail.map Char.toLower)) with
    | none => .error (.unsupportedPseudoClass c.offset (String.ofList text.tail))
    | some (.place p among) => .ok (.place p among, after)
    | some (.nth among) => do
      let (formula, c) ← Formula.read lexicon after
      return (.nth formula among, c)
    | some .negation =>
      match argument with
      | none => .error (.nestedTooDeep c.offset maxNegationDepth)
      | some argument => readNegation lexicon argument after

/-- The qualifier at a place, if one starts there. -/
def read? (lexicon : Lexicon) (argument : Option (Reader Compound)) (c : Cursor) :
    Except SelectorError (Option (Qualifier × Cursor)) :=
  match lexicon.token .className c with
  | some (text, after) => .ok (some (.className (String.ofList text.tail), after))
  | none =>
    match lexicon.token .id c with
    | some (text, after) => .ok (some (.id (String.ofList text.tail), after))
    | none =>
      if lexicon.peek .pseudoClass c then (readPseudoClass lexicon argument c).map some
      else if lexicon.peek .leftBracket c then
        (AttributeTest.read lexicon c).map fun (test, after) => some (.attributeTest test, after)
      else .ok none

end Qualifier

namespace Compound

/-- The element test at a place, if one stands there. -/
def readElement (lexicon : Lexicon) (c : Cursor) : Option ElementTest × Cursor :=
  match lexicon.token .universal c with
  | some (_, after) => (some .universal, after)
  | none =>
    match lexicon.token .element c with
    | some (name, after) => (some (.named (String.ofList name)), after)
    | none => (none, c)

/-- A compound is not empty, and tests of the position among siblings of the same name
need a name, either its own or one around it. -/
def check (start : Cursor) (element : Option ElementTest) (name : Option String)
    (qualifiers : List (Nat × Qualifier)) : Except SelectorError Compound :=
  if element.isNone && qualifiers.isEmpty then .error (.unexpected start.offset .compound)
  else match name, qualifiers.findSome? fun (offset, q) => q.sameType?.map (offset, ·) with
    | none, some (offset, pseudoClass) =>
      .error (.unsupportedPseudoClass offset pseudoClass.name)
    | _, _ => .ok ⟨element, qualifiers.map Prod.snd⟩

/-- A compound whose negations read their arguments with `argument`, which is told the name
that holds there. -/
def readWith (lexicon : Lexicon) (argument : Option String → Option (Reader Compound))
    (enclosing : Option String) (c : Cursor) : Except SelectorError (Compound × Cursor) := do
  let start := lexicon.skip .spaces c
  let (element, c) := readElement lexicon start
  let name := (ElementTest.name? element).or enclosing
  let (qualifiers, c) ← c.readWhile (Qualifier.read? lexicon (argument name))
  let compound ← check start element name qualifiers
  return (compound, c)

/-- The reader of compounds with some levels of negations left, inside a compound with the
name `enclosing`. -/
def readNested (lexicon : Lexicon) : (levels : Nat) → (enclosing : Option String) →
    Reader Compound
  | 0 => readWith lexicon fun _ => none
  | levels + 1 => readWith lexicon fun name => some (readNested lexicon levels name)

/-- A compound that stands in no negation. -/
def read (lexicon : Lexicon) (c : Cursor) : Except SelectorError (Compound × Cursor) :=
  readNested lexicon maxNegationDepth none c

end Compound

/-- The qualifier at a place in no negation and after no element name, if one starts there. -/
def Qualifier.readOutermost? (lexicon : Lexicon) (c : Cursor) :
    Except SelectorError (Option (Qualifier × Cursor)) :=
  read? lexicon (some (Compound.readNested lexicon (maxNegationDepth - 1) none)) c

end SelectorPath
