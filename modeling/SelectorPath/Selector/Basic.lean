import SelectorPath.Formula.Basic

/-!
Selectors. A selector is a chain of steps; a step goes from one element to another by a
combinator and tests what it finds there by a compound, which is an element test and some
qualifiers.
-/

namespace SelectorPath

inductive ElementTest where
  | universal
  | named (name : String)
  deriving DecidableEq, Repr

inductive AttributeOperator where
  | equals
  | includes
  | dashMatch
  | startsWith
  | endsWith
  | contains
  deriving DecidableEq, Repr

/-- The operator that a text stands for. -/
def AttributeOperator.ofText? : List Char → Option AttributeOperator
  | ['='] => some .equals
  | ['~', '='] => some .includes
  | ['|', '='] => some .dashMatch
  | ['^', '='] => some .startsWith
  | ['$', '='] => some .endsWith
  | ['*', '='] => some .contains
  | _ => none

inductive AttributeTest where
  | present (name : String)
  | compare (name : String) (operator : AttributeOperator) (value : String)
  deriving DecidableEq, Repr

/-- The siblings that a position is counted among: all of them, or those that have the
element's own name. -/
inductive Among where
  | children
  | sameType
  deriving DecidableEq, Repr

def Among.word : Among → String
  | .children => "child"
  | .sameType => "of-type"

inductive Place where
  | first
  | last
  | only
  deriving DecidableEq, Repr

def Place.word : Place → String
  | .first => "first"
  | .last => "last"
  | .only => "only"

/-- What the name of a pseudo-class stands for. -/
inductive PseudoClass where
  | place (place : Place) (among : Among)
  | nth (among : Among)
  | negation
  deriving DecidableEq, Repr

namespace PseudoClass

def name : PseudoClass → String
  | .place p among => p.word ++ "-" ++ among.word
  | .nth among => "nth-" ++ among.word
  | .negation => "not"

def all : List PseudoClass :=
  [.place .first .children, .place .last .children, .place .only .children,
   .place .first .sameType, .place .last .sameType, .place .only .sameType,
   .nth .children, .nth .sameType, .negation]

/-- The pseudo-class with a given name. -/
def ofName? (name : String) : Option PseudoClass := all.find? (·.name == name)

end PseudoClass

/-- A test besides the element test. The argument of a negation is a compound. -/
inductive Qualifier where
  | className (name : String)
  | id (name : String)
  | attributeTest (test : AttributeTest)
  | place (place : Place) (among : Among)
  | nth (formula : Formula) (among : Among)
  | negation (element : Option ElementTest) (qualifiers : List Qualifier)
  deriving Repr

namespace Qualifier

/-- The pseudo-class that a qualifier is written as. -/
def pseudoClass? : Qualifier → Option PseudoClass
  | .place p among => some (.place p among)
  | .nth _ among => some (.nth among)
  | .negation _ _ => some .negation
  | _ => none

/-- The pseudo-class of a qualifier that tests the position among the siblings of the same
name. -/
def sameType? : Qualifier → Option PseudoClass
  | .place p .sameType => some (.place p .sameType)
  | .nth _ .sameType => some (.nth .sameType)
  | _ => none

def isSameType (q : Qualifier) : Bool := q.sameType?.isSome

end Qualifier

structure Compound where
  element : Option ElementTest
  qualifiers : List Qualifier
  deriving Repr

/-- The name that an element test asks for. -/
def ElementTest.name? : Option ElementTest → Option String
  | some (.named name) => some name
  | _ => none

/-- How the element of a step is related to the one before it. -/
inductive Combinator where
  | descendant
  | child
  | nextSibling
  | laterSibling
  deriving DecidableEq, Repr

/-- Whether a combinator leads to children of some element, so that their positions on the
way are their positions among all children. -/
def Combinator.leadsToChildren : Combinator → Bool
  | .descendant | .child => true
  | .nextSibling | .laterSibling => false

structure Step where
  combinator : Combinator
  compound : Compound
  deriving Repr

structure Selector where
  steps : List Step
  deriving Repr

end SelectorPath
