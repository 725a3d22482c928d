import SelectorPath.Proofs.Document.Basic
import SelectorPath.Proofs.Text.Words

/-!
What selectors select in a document: the elements at the end of chains of elements that are
related by the combinators and match the compounds. It is left open which words a text has
(`WordTest`); by the rules for selectors they are separated by blanks (`hasWord`).
-/

namespace SelectorPath

open Text

/-- Whether a text has a word. -/
abbrev WordTest := String → String → Prop

/-- A word is one of those that blanks separate. -/
def hasWord : WordTest := fun text word => word.toList ∈ words isBlank text.toList

namespace Formula

/-- The numbers `a` and `b` of a formula `an+b`. -/
def coefficients : Formula → Int × Int
  | .odd => (2, 1)
  | .even => (2, 0)
  | .linear a b => (a.toInt, b.toInt)

/-- A formula `an+b` selects the positions `a*k + b` with `k ≥ 0`. -/
def Selects (formula : Formula) (position : Nat) : Prop :=
  ∃ k : Nat, (position : Int) = formula.coefficients.1 * k + formula.coefficients.2

end Formula

/-- A place, given a position and the position from the end. -/
def Place.Matches (position fromEnd : Nat) : Place → Prop
  | .first => position = 1
  | .last => fromEnd = 1
  | .only => position = 1 ∧ fromEnd = 1

def AttributeOperator.Compares (hasWord : WordTest) (text value : String) :
    AttributeOperator → Prop
  | .equals => text = value
  | .includes => hasWord text value
  | .dashMatch => text = value ∨ value.toList ++ ['-'] <+: text.toList
  | .startsWith => value ≠ "" ∧ value.toList <+: text.toList
  | .endsWith => value ≠ "" ∧ value.toList <:+ text.toList
  | .contains => value ≠ "" ∧ value.toList <:+: text.toList

def AttributeTest.Matches (hasWord : WordTest) (attribute? : String → Option String) :
    AttributeTest → Prop
  | .present name => (attribute? name).isSome
  | .compare name operator value =>
    ∃ text, attribute? name = some text ∧ operator.Compares hasWord text value

def ElementTest.Matches (doc : Document) (a : Address) (element : Option ElementTest) : Prop :=
  ∀ name, ElementTest.name? element = some name → doc.name? a = some name

mutual

/-- What a qualifier asks of an element. -/
def Qualifier.Matches (hasWord : WordTest) (doc : Document) (a : Address) : Qualifier → Prop
  | .className name => ∃ text, doc.attribute? a "class" = some text ∧ hasWord text name
  | .id name => doc.attribute? a "id" = some name
  | .attributeTest test => test.Matches hasWord (doc.attribute? a)
  | .place p among => p.Matches (doc.rank among a) (doc.rankFromEnd among a)
  | .nth formula among => formula.Selects (doc.rank among a)
  | .negation element qualifiers =>
    ¬(ElementTest.Matches doc a element ∧ Qualifier.AllMatch hasWord doc a qualifiers)

def Qualifier.AllMatch (hasWord : WordTest) (doc : Document) (a : Address) :
    List Qualifier → Prop
  | [] => True
  | q :: rest => q.Matches hasWord doc a ∧ Qualifier.AllMatch hasWord doc a rest

end

def Compound.Matches (hasWord : WordTest) (doc : Document) (a : Address) (compound : Compound) :
    Prop :=
  ElementTest.Matches doc a compound.element ∧
    Qualifier.AllMatch hasWord doc a compound.qualifiers

/-- How two elements are related. -/
def Combinator.Relates (a b : Address) : Combinator → Prop
  | .descendant => a <:+ b ∧ a ≠ b
  | .child => ∃ i, b = i :: a
  | .nextSibling => ∃ i c, a = i :: c ∧ b = (i + 1) :: c
  | .laterSibling => ∃ i j c, a = i :: c ∧ b = j :: c ∧ i < j

/-- A step leads from an element to those that are related to it and match. -/
def Step.Leads (hasWord : WordTest) (doc : Document) (step : Step) (a b : Address) : Prop :=
  doc.Has b ∧ step.combinator.Relates a b ∧ step.compound.Matches hasWord doc b

/-- Steps lead from one element to the next. -/
def Step.Chain (hasWord : WordTest) (doc : Document) : List Step → Address → Address → Prop
  | [], a, b => a = b
  | step :: rest, a, b => ∃ c, step.Leads hasWord doc a c ∧ Step.Chain hasWord doc rest c b

/-- A selector selects the elements that its steps lead to from an element. -/
def Selector.Selects (hasWord : WordTest) (doc : Document) (selector : Selector)
    (a b : Address) : Prop :=
  Step.Chain hasWord doc selector.steps a b

end SelectorPath
