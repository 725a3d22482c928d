import SelectorPath.Compile.Position
import SelectorPath.Text.Space
import SelectorPath.XPath.Text

/-!
The XPath terms of qualifiers.
-/

namespace SelectorPath

open XPath

/-- Where a compound stands: how its tests refer to positions, and the element name that
holds there. -/
structure Scope where
  child : Position
  sameType : Position
  element : Option String
  deriving Repr

namespace Scope

/-- The test for siblings of the same type. Without a name these are all siblings. -/
def typeTest (element : Option String) : NodeTest :=
  match element with
  | some name => .named name
  | none => .any

/-- All positions by counting. -/
def counted (element : Option String) : Scope :=
  ⟨.counted .any, .counted (typeTest element), element⟩

def position (scope : Scope) : Among → Position
  | .children => scope.child
  | .sameType => scope.sameType

end Scope

namespace AttributeTest

/-- The attribute, as words with blanks between them, has a word. -/
def hasWord (target : Expr) (word : String) : Expr :=
  let blank := Expr.literal ⟨.double, " "⟩
  .call .contains
    [.call .concat [blank, .call .normalizeSpace [target], blank],
     .ofText (" " ++ word ++ " ")]

/-- Whether no attribute can pass: an empty word, a word with white space in it, or an
empty part. -/
def isVacuous (operator : AttributeOperator) (value : String) : Bool :=
  match operator with
  | .equals | .dashMatch => false
  | .includes => value.isEmpty || value.toList.any Text.isSpace
  | .startsWith | .endsWith | .contains => value.isEmpty

/-- The comparison of an attribute with a value. -/
def comparison (target : Expr) (operator : AttributeOperator) (value : String) : Expr :=
  let text := Expr.ofText value
  match operator with
  | .equals => .same target text
  | .includes => hasWord target value
  | .dashMatch => .group (.binary .or (.same target text)
      (.call .startsWith [target, .ofText (value ++ "-")]))
  | .startsWith => .call .startsWith [target, text]
  | .endsWith =>
    let start := .binary .plus
      (.binary .minus (.call .stringLength [target]) (.call .stringLength [text]))
      (.number 1)
    .same (.call .substring [target, start]) text
  | .contains => .call .contains [target, text]

def term : AttributeTest → Expr
  | .present name => .attributeNamed name
  | .compare name operator value =>
    if isVacuous operator value then .call .constFalse []
    else comparison (.attributeNamed name) operator value

end AttributeTest

/-- The term for the name that an element test asks for. -/
def ElementTest.terms (element : Option ElementTest) : List Expr :=
  match ElementTest.name? element with
  | some name => [.nodes .self (.named name)]
  | none => []

/-- The negation of terms. No terms hold of every element. -/
def negateTerms : List Expr → Expr
  | [] => .call .constFalse []
  | terms => .negation terms

mutual

/-- The terms that test a qualifier. In a negation all positions are counted, and without a
name of its own the name around it holds on. -/
def Qualifier.terms (scope : Scope) : Qualifier → List Expr
  | .className name => [AttributeTest.hasWord (.attributeNamed "class") name]
  | .id name => [.same (.attributeNamed "id") (.ofText name)]
  | .attributeTest test => [test.term]
  | .place p among => (scope.position among).place p
  | .nth formula among => formula.terms (scope.position among).index
  | .negation element qualifiers =>
    let name := (ElementTest.name? element).or scope.element
    [negateTerms (ElementTest.terms element ++
      Qualifier.allTerms (.counted name) qualifiers)]

/-- The terms that test all qualifiers. -/
def Qualifier.allTerms (scope : Scope) : List Qualifier → List Expr
  | [] => []
  | q :: rest => q.terms scope ++ Qualifier.allTerms scope rest

end

end SelectorPath
