import SelectorPath.Proofs.Token.Language
import SelectorPath.Proofs.XPath.Syntax
import SelectorPath.XPath.Basic

/-!
The trees that expressions mean. `Expr.tree` gives the tree of an expression, in which
parentheses leave no trace and terms that all have to hold are a conjunction. `Expr.WellFormed`
says that names and literals can be read back and that operands bind tightly enough.
-/

namespace SelectorPath.XPath

open Text Syntax

def Axis.toName : Axis → AxisName
  | .child => .child
  | .descendantOrSelf => .descendantOrSelf
  | .followingSibling => .followingSibling
  | .precedingSibling => .precedingSibling
  | .self => .self

def NodeTest.toTest : NodeTest → Test
  | .any => .any
  | .named name => .named name

def Operator.toOp : Operator → Op
  | .or => .or
  | .equal => .equal
  | .atMost => .atMost
  | .atLeast => .atLeast
  | .plus => .plus
  | .minus => .minus
  | .mod => .mod

namespace Syntax.Tree

/-- Trees with an operator between them. It is never asked of no trees. -/
def chain (op : Op) : List Tree → Tree
  | [] => .call "true" []
  | first :: rest => rest.foldl (.binary op) first

/-- The nodes on an axis that pass a test. -/
def nodes (axis : AxisName) (test : Test) : Tree := .path false [.mk axis test []]

/-- A number with its sign. -/
def ofInt (n : Int) : Tree :=
  if n < 0 then .negative (.number n.natAbs) else .number n.natAbs

end Syntax.Tree

mutual

/-- The tree of an expression. -/
def Expr.tree : Expr → Tree
  | .verbatim _ => .call "true" []
  | .literal l => .literal l.text
  | .number n => .ofInt n
  | .attributeNamed name => .nodes .attribute (.named name)
  | .nodes axis test => .nodes axis.toName test.toTest
  | .call f arguments => .call f.name (Expr.trees arguments)
  | .same a b => .binary .equal a.tree b.tree
  | .binary op a b => .binary op.toOp a.tree b.tree
  | .group e => e.tree
  | .negation terms => .call "not" [.chain .and (Expr.trees terms)]

def Expr.trees : List Expr → List Tree
  | [] => []
  | e :: rest => e.tree :: Expr.trees rest

end

theorem Expr.trees_eq_map (es : List Expr) : Expr.trees es = es.map Expr.tree := by
  induction es with
  | nil => rfl
  | cons e es ih => simp [Expr.trees, ih]

/-- The tree of a location step, with one predicate for each bracket. -/
def Step.tree (step : Step) : TreeStep :=
  .mk step.axis.toName step.test.toTest
    (step.brackets.map fun terms => .chain .and (Expr.trees terms))

def Path.tree (path : Path) : Tree := .path path.fromRoot (path.steps.map Step.tree)

/-- The tree of a union of paths. -/
def unionTree (paths : List Path) : Tree := .chain .union (paths.map Path.tree)

/-! ## Well-formed expressions -/

/-- A name that a text holds as one token. -/
def IsName (name : String) : Prop := Headed isNameStart isAttributePart name.toList

def NodeTest.WellFormed : NodeTest → Prop
  | .any => True
  | .named name => IsName name

/-- How tightly the outermost operator of an expression binds. -/
def Expr.level : Expr → Nat
  | .verbatim _ => 0
  | .number n => if n < 0 then signLevel else pathLevel
  | .same _ _ => Op.equal.level
  | .binary op _ _ => op.toOp.level
  | _ => pathLevel

mutual

/-- Names are names, literals do not hold their quote, and operands bind more tightly than
their operator, except for the left one, which may bind as tightly. -/
def Expr.WellFormed : Expr → Prop
  | .verbatim _ => False
  | .literal l => l.quote.char ∉ l.text.toList
  | .number _ => True
  | .attributeNamed name => IsName name
  | .nodes _ test => test.WellFormed
  | .call _ arguments => Expr.AllWellFormed arguments
  | .same a b => a.WellFormed ∧ b.WellFormed ∧ Op.equal.level ≤ a.level ∧ Op.equal.level < b.level
  | .binary op a b =>
    a.WellFormed ∧ b.WellFormed ∧ op.toOp.level ≤ a.level ∧ op.toOp.level < b.level
  | .group e => e.WellFormed
  | .negation terms => terms ≠ [] ∧ Expr.AllWellFormed terms ∧ ∀ e ∈ terms, Op.and.level < e.level

def Expr.AllWellFormed : List Expr → Prop
  | [] => True
  | e :: rest => e.WellFormed ∧ Expr.AllWellFormed rest

end

theorem Expr.allWellFormed_iff {es : List Expr} :
    Expr.AllWellFormed es ↔ ∀ e ∈ es, e.WellFormed := by
  induction es with
  | nil => simp [Expr.AllWellFormed]
  | cons e es ih => simp [Expr.AllWellFormed, ih]

/-- Terms of which the conjunction can be read back. -/
structure TermsWellFormed (terms : List Expr) : Prop where
  ne_nil : terms ≠ []
  all : Expr.AllWellFormed terms
  level : ∀ e ∈ terms, Op.and.level < e.level

structure Step.WellFormed (step : Step) : Prop where
  test : step.test.WellFormed
  brackets : ∀ terms ∈ step.brackets, TermsWellFormed terms

structure Path.WellFormed (path : Path) : Prop where
  ne_nil : path.steps ≠ []
  steps : ∀ step ∈ path.steps, step.WellFormed

end SelectorPath.XPath
