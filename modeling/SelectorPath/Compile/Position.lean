import SelectorPath.Formula.Basic
import SelectorPath.Selector.Basic
import SelectorPath.XPath.Basic

/-!
Tests of an element's position. In the first bracket of a step to children the number of a
node is its position among all children, and in the bracket after a test of the name it is
its position among the children of that name. Everywhere else the siblings are counted.
-/

namespace SelectorPath

open XPath

/-- How a test refers to the position of an element. -/
inductive Position where
  | exact
  /-- By counting the siblings that pass a test. -/
  | counted (test : NodeTest)
  deriving DecidableEq, Repr

namespace Position

/-- The position, of which the first is 1. -/
def index : Position → Expr
  | .exact => .call .position []
  | .counted test =>
    .group (.binary .plus (.call .count [.nodes .precedingSibling test]) (.number 1))

/-- The element has no sibling before it. -/
def first : Position → Expr
  | .exact => .same (.call .position []) (.number 1)
  | .counted test => .negation [.nodes .precedingSibling test]

/-- The element has no sibling after it. -/
def last : Position → Expr
  | .exact => .same (.call .position []) (.call .last [])
  | .counted test => .negation [.nodes .followingSibling test]

/-- The terms for a place. -/
def place (position : Position) : Place → List Expr
  | .first => [position.first]
  | .last => [position.last]
  | .only => [position.first, position.last]

end Position

namespace Formula

/-- The distance of an index from a constant, without a sign after a sign. -/
def distance (index : Expr) (constant : Int) : Expr :=
  if constant = 0 then index
  else if 0 < constant then .group (.binary .minus index (.number constant))
  else .group (.binary .plus index (.number (-constant)))

/-- The term that an expression leaves a remainder. -/
def leaves (e : Expr) (modulus remainder : Int) : Expr :=
  .binary .equal (.binary .mod e (.number modulus)) (.number remainder)

/-- The terms for the positions `a*k + b` with `k ≥ 0`. For a coefficient above 1 the bound
from below is left out where every position with the right remainder obeys it. -/
def linearTerms (a b : Int) (index : Expr) : List Expr :=
  if a = 0 then [.binary .equal index (.number b)]
  else if a = 1 then
    if 1 < b then [.binary .atLeast index (.number b)] else [.call .constTrue []]
  else if 1 < a then
    leaves (distance index b) a 0 ::
      if a < b then [.binary .atLeast index (.number b)] else []
  else if b < 1 then [.call .constFalse []]
  else if a = -1 then [.binary .atMost index (.number b)]
  else [leaves (.group (.binary .minus (.number b) index)) (-a) 0,
    .binary .atMost index (.number b)]

/-- The terms that test whether a formula selects an index. -/
def terms (formula : Formula) (index : Expr) : List Expr :=
  match formula with
  | .even => [leaves index 2 0]
  | .odd => [leaves index 2 1]
  | .linear a b => linearTerms a.toInt b.toInt index

end Formula

end SelectorPath
