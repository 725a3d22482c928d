import SelectorPath.Compile.Qualifier

/-!
The XPath paths of selectors.
-/

namespace SelectorPath

open XPath

/-- Where a path starts. -/
inductive Anchor where
  | context
  | document
  deriving DecidableEq, Repr

namespace Compound

/-- The brackets of a compound before the empty ones are left out. A node's number is its
position among all children in the first bracket of a step to children, and its position
among the children of its name in the bracket after the one for the name. -/
def layout (toChildren : Bool) (compound : Compound) : List (List Expr) :=
  let element := ElementTest.name? compound.element
  let name := ElementTest.terms compound.element
  let qualifiers := compound.qualifiers
  let typeTest := Scope.typeTest element
  if !toChildren then [name ++ Qualifier.allTerms (.counted element) qualifiers]
  else if !qualifiers.any Qualifier.isSameType then
    [name ++ Qualifier.allTerms ⟨.exact, .counted typeTest, element⟩ qualifiers]
  else
    [name,
     Qualifier.allTerms ⟨.counted .any, .exact, element⟩ (qualifiers.filter Qualifier.isSameType),
     Qualifier.allTerms (.counted element) (qualifiers.filter fun q => !q.isSameType)]

def brackets (toChildren : Bool) (compound : Compound) : List (List Expr) :=
  (compound.layout toChildren).filter fun terms => !terms.isEmpty

end Compound

/-- The location steps of a step. -/
def Step.path (step : Step) : List XPath.Step :=
  let brackets := step.compound.brackets step.combinator.leadsToChildren
  match step.combinator with
  | .descendant => [⟨.descendantOrSelf, .any, []⟩, ⟨.child, .any, brackets⟩]
  | .child => [⟨.child, .any, brackets⟩]
  | .nextSibling => [⟨.followingSibling, .any, [Position.exact.first] :: brackets⟩]
  | .laterSibling => [⟨.followingSibling, .any, brackets⟩]

/-- The location path of a selector. -/
def Selector.path (anchor : Anchor) (selector : Selector) : Path :=
  ⟨anchor = .document, selector.steps.flatMap Step.path⟩

end SelectorPath
