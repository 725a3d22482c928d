import SelectorPath.Proofs.Document.Basic
import SelectorPath.Proofs.Text.Words
import SelectorPath.Proofs.XPath.Syntax

/-!
The meaning of XPath 1.0 expressions on documents (`Tree.eval?`). The positions in a predicate
are counted along the axis, anew for each node that a step starts from and after each
predicate. Numbers are integers and `mod` truncates.

Left out are the axes that lead upwards or across the whole document, functions and operators
that selectors do not become, and the conversion of texts to numbers; an expression with these
has no value here.
-/

namespace SelectorPath

open Text XPath Syntax

/-! ## Nodes -/

namespace XPath

inductive Node where
  | root
  | element (address : Address)
  | attribute (owner : Address) (name : String)
  deriving DecidableEq, Repr

def Node.isElement : Node → Bool
  | .element _ => true
  | _ => false

def Node.isAttribute : Node → Bool
  | .attribute _ _ => true
  | _ => false

end XPath

namespace Document

variable (doc : Document)

/-- All nodes, in the order of the document. -/
def nodes : List Node :=
  .root :: doc.addresses.flatMap fun a => .element a :: (doc.attributeNames a).map (.attribute a)

def nodeName? : Node → Option String
  | .root => none
  | .element a => doc.name? a
  | .attribute _ name => some name

/-- The text of a node. There is no text in elements. -/
def nodeText : Node → List Char
  | .attribute a name => ((doc.attribute? a name).getD "").toList
  | _ => []

/-- The nodes on an axis, from the nearest on. -/
def axis? (axis : AxisName) (node : Node) : Option (List Node) :=
  match axis, node with
  | .self, node => some [node]
  | .child, .root => some [.element []]
  | .child, .element a => some ((doc.children a).map .element)
  | .child, .attribute _ _ => some []
  | .descendantOrSelf, .root => some (.root :: doc.addresses.map .element)
  | .descendantOrSelf, .element a =>
    some ((doc.addresses.filter fun b => a.isSuffixOf b).map .element)
  | .descendantOrSelf, node => some [node]
  | .followingSibling, .element a => some ((doc.after a).map .element)
  | .followingSibling, _ => some []
  | .precedingSibling, .element a => some ((before a).reverse.map .element)
  | .precedingSibling, _ => some []
  | .attribute, .element a => some ((doc.attributeNames a).map (.attribute a))
  | .attribute, _ => some []
  | _, _ => none

/-- A name test is for attributes on their axis, and for elements on all others. -/
def passes (axis : AxisName) (test : Test) (node : Node) : Bool :=
  let principal := if axis = .attribute then node.isAttribute else node.isElement
  match test with
  | .any => principal
  | .named name => principal && doc.nodeName? node == some name
  | .kind name => name == "node"

end Document

/-! ## Values -/

namespace XPath

inductive Value where
  | nodes (list : List Node)
  | text (text : List Char)
  | number (value : Int)
  | boolean (value : Bool)
  deriving Repr

namespace Value

def toBool : Value → Bool
  | .nodes list => !list.isEmpty
  | .text s => !s.isEmpty
  | .number n => n != 0
  | .boolean b => b

/-- The text of a value. That of nodes is the text of the first in the document. -/
def toText (doc : Document) : Value → List Char
  | .nodes list => ((doc.nodes.find? fun node => node ∈ list).map doc.nodeText).getD []
  | .text s => s
  | .number n => (toString n).toList
  | .boolean b => (toString b).toList

/-- Whether two values are equal. Nodes are equal to what one of them is equal to. -/
def equals? (doc : Document) : Value → Value → Option Bool
  | .boolean a, b => some (a == b.toBool)
  | a, .boolean b => some (a.toBool == b)
  | .number a, .number b => some (a == b)
  | .text a, .text b => some (a == b)
  | .nodes a, .text b => some (a.any fun node => doc.nodeText node == b)
  | .text a, .nodes b => some (b.any fun node => doc.nodeText node == a)
  | .nodes a, .nodes b =>
    some (a.any fun node => b.any fun other => doc.nodeText node == doc.nodeText other)
  | _, _ => none

/-- Whether a predicate with this value keeps the node at a position. -/
def holdsAt (position : Nat) : Value → Bool
  | .number n => n == position
  | v => v.toBool

end Value

end XPath

/-- The value of an operator. -/
def XPath.Syntax.Op.value? (doc : Document) : Op → Value → Value → Option Value
  | .or, a, b => some (.boolean (a.toBool || b.toBool))
  | .and, a, b => some (.boolean (a.toBool && b.toBool))
  | .equal, a, b => (a.equals? doc b).map .boolean
  | .less, .number a, .number b => some (.boolean (a < b))
  | .atMost, .number a, .number b => some (.boolean (a ≤ b))
  | .greater, .number a, .number b => some (.boolean (a > b))
  | .atLeast, .number a, .number b => some (.boolean (a ≥ b))
  | .plus, .number a, .number b => some (.number (a + b))
  | .minus, .number a, .number b => some (.number (a - b))
  | .times, .number a, .number b => some (.number (a * b))
  | .mod, .number a, .number b => if b = 0 then none else some (.number (a.tmod b))
  | .union, .nodes a, .nodes b => some (.nodes (a ++ b).dedup)
  | _, _, _ => none

/-! ## Functions -/

namespace XPath

/-- A text without white space at its ends and with single blanks between its words. -/
def normalizeSpace (s : List Char) : List Char := [' '].intercalate (words isXmlSpace s)

/-- Where an expression stands: the node, its position and the number of nodes. -/
structure Context where
  node : Node
  position : Nat
  size : Nat

/-- The value of a function. -/
def call? (doc : Document) (context : Context) (function : String) (arguments : List Value) :
    Option Value :=
  match function, arguments with
  | "position", [] => some (.number context.position)
  | "last", [] => some (.number context.size)
  | "count", [.nodes nodes] => some (.number nodes.length)
  | "concat", a :: b :: rest => some (.text ((a :: b :: rest).flatMap fun v => v.toText doc))
  | "contains", [a, b] => some (.boolean (decide (b.toText doc <:+: a.toText doc)))
  | "starts-with", [a, b] => some (.boolean (decide (b.toText doc <+: a.toText doc)))
  | "substring", [a, .number first] => some (.text ((a.toText doc).drop (first - 1).toNat))
  | "string-length", [a] => some (.number (a.toText doc).length)
  | "normalize-space", [a] => some (.text (normalizeSpace (a.toText doc)))
  | "true", [] => some (.boolean true)
  | "false", [] => some (.boolean false)
  | "not", [a] => some (.boolean !a.toBool)
  | _, _ => none

/-! ## Expressions -/

/-- The nodes of `size` nodes, from a position on, that pass a test. -/
def keepWhere (test : Context → Option Bool) (size position : Nat) :
    List Node → Option (List Node)
  | [] => some []
  | node :: rest => do
    let keep ← test ⟨node, position, size⟩
    let others ← keepWhere test size (position + 1) rest
    some (if keep then node :: others else others)

namespace Syntax

mutual

/-- The value of an expression. -/
def Tree.eval? (doc : Document) (context : Context) : Tree → Option Value
  | .binary op a b => do op.value? doc (← a.eval? doc context) (← b.eval? doc context)
  | .negative a => do (Op.minus).value? doc (.number 0) (← a.eval? doc context)
  | .literal text => some (.text text.toList)
  | .number n => some (.number n)
  | .call f arguments => do call? doc context f (← Tree.evalAll? doc context arguments)
  | .path fromRoot steps => do
    let start := if fromRoot then .root else context.node
    some (.nodes (← TreeStep.follow? doc [start] steps))

def Tree.evalAll? (doc : Document) (context : Context) : List Tree → Option (List Value)
  | [] => some []
  | tree :: rest => do some ((← tree.eval? doc context) :: (← Tree.evalAll? doc context rest))

/-- The nodes that steps lead to from nodes. -/
def TreeStep.follow? (doc : Document) (nodes : List Node) : List TreeStep → Option (List Node)
  | [] => some nodes
  | step :: rest => do
    let found ← nodes.mapM fun node => step.select? doc node
    TreeStep.follow? doc found.flatten.dedup rest

/-- The nodes that a step leads to from a node. -/
def TreeStep.select? (doc : Document) (node : Node) : TreeStep → Option (List Node)
  | .mk axis test predicates => do
    let nodes ← doc.axis? axis node
    Tree.keep? doc (nodes.filter (doc.passes axis test)) predicates

/-- The nodes that pass predicates, one predicate after the other. -/
def Tree.keep? (doc : Document) (nodes : List Node) : List Tree → Option (List Node)
  | [] => some nodes
  | predicate :: rest => do
    let kept ← keepWhere
      (fun context => (predicate.eval? doc context).map (Value.holdsAt context.position))
      nodes.length 1 nodes
    Tree.keep? doc kept rest

end

/-- The nodes that an expression selects from a node. -/
def Tree.select? (doc : Document) (node : Node) (tree : Tree) : Option (List Node) :=
  match tree.eval? doc ⟨node, 1, 1⟩ with
  | some (.nodes nodes) => some nodes
  | _ => none

end Syntax

end XPath

end SelectorPath
