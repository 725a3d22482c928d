import SelectorPath.Compiler
import SelectorPath.Proofs.Formula.Grammar

/-!
The notation of selector lists, as a grammar: relations between a text and the tree that it
stands for, with no word on how the text is read. What the grammar leaves to the trees are
two bounds, the depth of negations (`Compound.depth`) and the names that tests of the
position among siblings of the same name need (`Compound.Scoped`).
-/

namespace SelectorPath

open Text

/-! ## Depth and scope -/

mutual

/-- How deep negations are nested in a qualifier. -/
def Qualifier.depth : Qualifier → Nat
  | .negation _ qualifiers => Qualifier.depthAll qualifiers + 1
  | _ => 0

def Qualifier.depthAll : List Qualifier → Nat
  | [] => 0
  | q :: rest => max q.depth (Qualifier.depthAll rest)

end

mutual

/-- Tests of the position among siblings of the same name stand where a name holds: the name
of their own compound or of one around it. -/
def Qualifier.Scoped (name : Option String) : Qualifier → Prop
  | .negation element qualifiers =>
    Qualifier.AllScoped ((ElementTest.name? element).or name) qualifiers
  | q => q.isSameType → name.isSome

def Qualifier.AllScoped (name : Option String) : List Qualifier → Prop
  | [] => True
  | q :: rest => q.Scoped name ∧ Qualifier.AllScoped name rest

end

namespace Compound

def depth (compound : Compound) : Nat := Qualifier.depthAll compound.qualifiers

def Scoped (enclosing : Option String) (compound : Compound) : Prop :=
  Qualifier.AllScoped ((ElementTest.name? compound.element).or enclosing) compound.qualifiers

/-- A compound has an element test or a qualifier. -/
def Nonempty (compound : Compound) : Prop :=
  compound.element = none → compound.qualifiers ≠ []

end Compound

/-! ## The grammar -/

namespace Grammar

/-- The name of a pseudo-class, in which the case of ASCII letters does not count. -/
def PseudoClassText (s : List Char) (pseudoClass : PseudoClass) : Prop :=
  s.map Char.toLower = pseudoClass.name.toList

inductive ElementText : List Char → Option ElementTest → Prop
  | absent : ElementText [] none
  | universal : ElementText ['*'] (some .universal)
  | named {name : List Char} : Headed isNameStart isNamePart name →
      ElementText name (some (.named (String.ofList name)))

inductive ValueText : List Char → String → Prop
  | quoted {s : List Char} {quote : Char} : quote = '"' ∨ quote = '\'' → QuotedText quote s →
      ValueText s (Quoted.value s)
  | identifier {s : List Char} : Headed isPseudoPart isNamePart s →
      ValueText s (String.ofList s)

inductive AttributeText : List Char → AttributeTest → Prop
  | present {v name w : List Char} :
      SpaceText v → Headed isNameStart isAttributePart name → SpaceText w →
      AttributeText ('[' :: (v ++ name ++ w ++ [']'])) (.present (String.ofList name))
  | compare {v name w sign x s y : List Char} {operator : AttributeOperator} {value : String} :
      SpaceText v → Headed isNameStart isAttributePart name → SpaceText w →
      AttributeOperator.ofText? sign = some operator → SpaceText x → ValueText s value →
      SpaceText y →
      AttributeText ('[' :: (v ++ name ++ w ++ sign ++ x ++ s ++ y ++ [']']))
        (.compare (String.ofList name) operator value)

/-- The qualifiers that hold no compound. -/
inductive PlainText : List Char → Qualifier → Prop
  | className {name : List Char} : Headed isNamePart isNamePart name →
      PlainText ('.' :: name) (.className (String.ofList name))
  | id {name : List Char} : Headed isNamePart isNamePart name →
      PlainText ('#' :: name) (.id (String.ofList name))
  | attributeTest {s : List Char} {test : AttributeTest} : AttributeText s test →
      PlainText s (.attributeTest test)
  | place {name : List Char} {p : Place} {among : Among} :
      PseudoClassText name (.place p among) → PlainText (':' :: name) (.place p among)
  | nth {name s : List Char} {formula : Formula} {among : Among} :
      PseudoClassText name (.nth among) → FormulaText s formula →
      PlainText (':' :: (name ++ s)) (.nth formula among)

/-- Any number of qualifiers. The argument of a negation is an element test and qualifiers. -/
inductive QualifiersText : List Char → List Qualifier → Prop
  | nil : QualifiersText [] []
  | plain {s t : List Char} {q : Qualifier} {rest : List Qualifier} :
      PlainText s q → QualifiersText t rest → QualifiersText (s ++ t) (q :: rest)
  | negation {name v e s w t : List Char} {element : Option ElementTest}
      {qualifiers rest : List Qualifier} :
      PseudoClassText name .negation → SpaceText v → ElementText e element →
      QualifiersText s qualifiers → (⟨element, qualifiers⟩ : Compound).Nonempty → SpaceText w →
      QualifiersText t rest →
      QualifiersText (':' :: (name ++ ['('] ++ (v ++ e ++ s) ++ w ++ [')']) ++ t)
        (.negation element qualifiers :: rest)

def CompoundText (s : List Char) (compound : Compound) : Prop :=
  ∃ v e t, s = v ++ e ++ t ∧ SpaceText v ∧ ElementText e compound.element ∧
    QualifiersText t compound.qualifiers ∧ compound.Nonempty

inductive CombinatorText : List Char → Combinator → Prop
  | nextSibling {s : List Char} : Spaced '+' s → CombinatorText s .nextSibling
  | laterSibling {s : List Char} : Spaced '~' s → CombinatorText s .laterSibling
  | child {s : List Char} : Spaced '>' s → CombinatorText s .child
  | descendant {s : List Char} : Headed isSpace isSpace s → CombinatorText s .descendant

inductive StepsText : List Char → List Step → Prop
  | nil : StepsText [] []
  | cons {s t u : List Char} {combinator : Combinator} {compound : Compound} {rest : List Step} :
      CombinatorText s combinator → CompoundText t compound → StepsText u rest →
      StepsText (s ++ t ++ u) (⟨combinator, compound⟩ :: rest)

/-- What stands before the first compound of a selector. -/
inductive ScopeText : List Char → Combinator → Prop
  | absent : ScopeText [] .descendant
  | child {s : List Char} : Spaced '>' s → ScopeText s .child

inductive SelectorText : List Char → Selector → Prop
  | intro {s t u : List Char} {combinator : Combinator} {compound : Compound} {rest : List Step} :
      ScopeText s combinator → CompoundText t compound → StepsText u rest →
      SelectorText (s ++ t ++ u) ⟨⟨combinator, compound⟩ :: rest⟩

/-- One or more selectors with commas between them. -/
inductive MembersText : List Char → List Selector → Prop
  | last {s : List Char} {selector : Selector} :
      SelectorText s selector → MembersText s [selector]
  | cons {s comma t : List Char} {selector : Selector} {rest : List Selector} :
      SelectorText s selector → Spaced ',' comma → MembersText t rest →
      MembersText (s ++ comma ++ t) (selector :: rest)

def ListText (s : List Char) (selectors : List Selector) : Prop :=
  ∃ t w, s = t ++ w ∧ MembersText t selectors ∧ SpaceText w

end Grammar

end SelectorPath
