import SelectorPath.Json.Basic
import SelectorPath.Selector.Basic

/-!
Selectors as JSON documents. A case without data is a string, a case with data an object
with one field, and the fields of a record have a fixed order.
-/

namespace SelectorPath

namespace Formula

def toJson : Formula → Json
  | .odd => .string "odd"
  | .even => .string "even"
  | .linear a b =>
    .object [("linear", .object [("coefficient", .number a.toInt), ("constant", .number b.toInt)])]

/-- A number that fits in 64 bits. -/
def int64OfJson? : Json → Option Int64
  | .number n =>
    if Int64.minValue.toInt ≤ n ∧ n ≤ Int64.maxValue.toInt then some (.ofInt n) else none
  | _ => none

def ofJson? : Json → Option Formula
  | .string "odd" => some .odd
  | .string "even" => some .even
  | .object [("linear", .object [("coefficient", a), ("constant", b)])] => do
    some (.linear (← int64OfJson? a) (← int64OfJson? b))
  | _ => none

end Formula

namespace AttributeOperator

def all : List AttributeOperator :=
  [.equals, .includes, .dashMatch, .startsWith, .endsWith, .contains]

def name : AttributeOperator → String
  | .equals => "equals"
  | .includes => "includes"
  | .dashMatch => "dash-match"
  | .startsWith => "prefix"
  | .endsWith => "suffix"
  | .contains => "substring"

def ofName? (name : String) : Option AttributeOperator := all.find? (·.name == name)

end AttributeOperator

namespace AttributeTest

def toJson : AttributeTest → Json
  | .present name => .object [("exists", .object [("name", .string name)])]
  | .compare name operator value =>
    .object [("match", .object [("name", .string name), ("operator", .string operator.name),
      ("value", .string value)])]

def ofJson? : Json → Option AttributeTest
  | .object [("exists", .object [("name", .string name)])] => some (.present name)
  | .object [("match", .object [("name", .string name), ("operator", .string operator),
      ("value", .string value)])] =>
    (AttributeOperator.ofName? operator).map (.compare name · value)
  | _ => none

end AttributeTest

namespace ElementTest

def toJson : Option ElementTest → Json
  | none => .null
  | some .universal => .string "universal"
  | some (.named name) => .object [("named", .string name)]

def ofJson? : Json → Option (Option ElementTest)
  | .null => some none
  | .string "universal" => some (some .universal)
  | .object [("named", .string name)] => some (some (.named name))
  | _ => none

end ElementTest

namespace Qualifier

mutual

def toJson : Qualifier → Json
  | .className name => .object [("class", .string name)]
  | .id name => .object [("id", .string name)]
  | .attributeTest test => .object [("attribute", test.toJson)]
  | .place p among => .object [("pseudo-class", .string (PseudoClass.place p among).name)]
  | .nth formula among =>
    .object [("pseudo-class", .object [((PseudoClass.nth among).name, formula.toJson)])]
  | .negation element qualifiers =>
    .object [("pseudo-class", .object [("not", .object [("element", ElementTest.toJson element),
      ("qualifiers", .array (listToJson qualifiers))])])]

def listToJson : List Qualifier → List Json
  | [] => []
  | q :: rest => q.toJson :: listToJson rest

end

/-- The qualifier of a pseudo-class without an argument. -/
def ofPlace? (name : String) : Option Qualifier :=
  match PseudoClass.ofName? name with
  | some (.place p among) => some (.place p among)
  | _ => none

mutual

def ofJson? : Json → Option Qualifier
  | .object [("class", .string name)] => some (.className name)
  | .object [("id", .string name)] => some (.id name)
  | .object [("attribute", test)] => (AttributeTest.ofJson? test).map .attributeTest
  | .object [("pseudo-class", .string name)] => ofPlace? name
  | .object [("pseudo-class", .object [("nth-child", formula)])] =>
    (Formula.ofJson? formula).map (.nth · .children)
  | .object [("pseudo-class", .object [("nth-of-type", formula)])] =>
    (Formula.ofJson? formula).map (.nth · .sameType)
  | .object [("pseudo-class", .object [("not", .object [("element", element),
      ("qualifiers", .array qualifiers)])])] => do
    some (.negation (← ElementTest.ofJson? element) (← listOfJson? qualifiers))
  | _ => none

def listOfJson? : List Json → Option (List Qualifier)
  | [] => some []
  | j :: rest => do some ((← ofJson? j) :: (← listOfJson? rest))

end

end Qualifier

namespace Compound

def toJson (compound : Compound) : Json :=
  .object [("element", ElementTest.toJson compound.element),
    ("qualifiers", .array (Qualifier.listToJson compound.qualifiers))]

def ofJson? : Json → Option Compound
  | .object [("element", element), ("qualifiers", .array qualifiers)] => do
    some ⟨← ElementTest.ofJson? element, ← Qualifier.listOfJson? qualifiers⟩
  | _ => none

end Compound

namespace Combinator

def all : List Combinator := [.descendant, .child, .nextSibling, .laterSibling]

def name : Combinator → String
  | .descendant => "descendant"
  | .child => "child"
  | .nextSibling => "next-sibling"
  | .laterSibling => "subsequent-sibling"

def ofName? (name : String) : Option Combinator := all.find? (·.name == name)

end Combinator

namespace Step

def toJson (step : Step) : Json :=
  .object [("combinator", .string step.combinator.name), ("sequence", step.compound.toJson)]

def ofJson? : Json → Option Step
  | .object [("combinator", .string combinator), ("sequence", compound)] => do
    some ⟨← Combinator.ofName? combinator, ← Compound.ofJson? compound⟩
  | _ => none

end Step

namespace Selector

def toJson (selector : Selector) : Json :=
  .object [("steps", .array (selector.steps.map Step.toJson))]

def ofJson? : Json → Option Selector
  | .object [("steps", .array steps)] => (steps.mapM Step.ofJson?).map (⟨·⟩)
  | _ => none

/-- The document of a list of selectors. -/
def listToJson (selectors : List Selector) : Json :=
  .object [("selectors", .array (selectors.map toJson))]

def listOfJson? : Json → Option (List Selector)
  | .object [("selectors", .array selectors)] => selectors.mapM ofJson?
  | _ => none

end Selector

end SelectorPath
