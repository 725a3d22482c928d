/-!
What can be wrong with a selector.
-/

namespace SelectorPath

/-- What the notation asks for at a place. -/
inductive Expectation where
  | compound
  | pseudoClass
  | negationOpening
  | negationClosing
  | attributeOpening
  | attributeName
  | attributeOperator
  | attributeValue
  | attributeClosing
  | formulaOpening
  | formula
  | constant
  | integer
  | formulaClosing
  deriving DecidableEq, Repr

def Expectation.text : Expectation → String
  | .compound => "type selector, `*`, or qualifier"
  | .pseudoClass => "pseudo-class"
  | .negationOpening => "`(` after `:not`"
  | .negationClosing => "`)` closing `:not(`"
  | .attributeOpening => "`[`"
  | .attributeName => "attribute name"
  | .attributeOperator => "`]` or attribute operator"
  | .attributeValue => "attribute value"
  | .attributeClosing => "`]`"
  | .formulaOpening => "`(` before nth formula"
  | .formula => "`odd`, `even`, or an+b formula"
  | .constant => "integer after sign in nth formula"
  | .integer => "integer that fits in 64 bits"
  | .formulaClosing => "`)` after nth formula"

/-- An error in a selector. Positions and lengths are in bytes. -/
inductive SelectorError where
  | unexpected (position : Nat) (expected : Expectation)
  | unsupportedPseudoClass (position : Nat) (name : String)
  | unsupportedOperator (position : Nat) (operator : String)
  | nestedTooDeep (position : Nat) (limit : Nat)
  | trailing (position : Nat) (rest : String)
  | tooLong (length : Nat) (limit : Nat)
  deriving DecidableEq, Repr

namespace SelectorError

def position : SelectorError → Nat
  | .unexpected position _ => position
  | .unsupportedPseudoClass position _ => position
  | .unsupportedOperator position _ => position
  | .nestedTooDeep position _ => position
  | .trailing position _ => position
  | .tooLong _ limit => limit

def message : SelectorError → String
  | .unexpected position expected => s!"expected {expected.text} at offset {position}"
  | .unsupportedPseudoClass position name =>
    s!"unsupported pseudo-class `:{name}` at offset {position}"
  | .unsupportedOperator position operator =>
    s!"unsupported attribute operator `{operator}` at offset {position}"
  | .nestedTooDeep position limit =>
    s!"`:not()` nested more than {limit} levels deep at offset {position}"
  | .trailing position rest => s!"unexpected trailing input `{rest}` at offset {position}"
  | .tooLong length limit => s!"selector is {length} bytes long, limit is {limit}"

end SelectorError

end SelectorPath
