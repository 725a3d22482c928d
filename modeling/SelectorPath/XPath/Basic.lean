/-!
The XPath expressions that selectors become, and their text. A union of paths, a path of
steps, and a step with predicates in brackets; in a bracket stands a list of terms, all of
which have to hold.
-/

namespace SelectorPath.XPath

inductive Axis where
  | child
  | descendantOrSelf
  | followingSibling
  | precedingSibling
  | self
  deriving DecidableEq, Repr

def Axis.name : Axis → String
  | .child => "child"
  | .descendantOrSelf => "descendant-or-self"
  | .followingSibling => "following-sibling"
  | .precedingSibling => "preceding-sibling"
  | .self => "self"

inductive NodeTest where
  | any
  | named (name : String)
  deriving DecidableEq, Repr

def NodeTest.render : NodeTest → String
  | .any => "*"
  | .named name => name

inductive Quote where
  | double
  | single
  deriving DecidableEq, Repr

def Quote.char : Quote → Char
  | .double => '"'
  | .single => '\''

/-- A string literal. There are no escapes, so its text must not hold its quote. -/
structure Literal where
  quote : Quote
  text : String
  deriving DecidableEq, Repr

def Literal.render (l : Literal) : String :=
  String.singleton l.quote.char ++ l.text ++ String.singleton l.quote.char

inductive Function where
  | position
  | last
  | count
  | concat
  | contains
  | startsWith
  | substring
  | stringLength
  | normalizeSpace
  | constTrue
  | constFalse
  deriving DecidableEq, Repr

def Function.name : Function → String
  | .position => "position"
  | .last => "last"
  | .count => "count"
  | .concat => "concat"
  | .contains => "contains"
  | .startsWith => "starts-with"
  | .substring => "substring"
  | .stringLength => "string-length"
  | .normalizeSpace => "normalize-space"
  | .constTrue => "true"
  | .constFalse => "false"

/-- The operators that are written with a blank on each side. -/
inductive Operator where
  | or
  | equal
  | atMost
  | atLeast
  | plus
  | minus
  | mod
  deriving DecidableEq, Repr

def Operator.symbol : Operator → String
  | .or => "or"
  | .equal => "="
  | .atMost => "<="
  | .atLeast => ">="
  | .plus => "+"
  | .minus => "-"
  | .mod => "mod"

inductive Expr where
  /-- An expression that is given by its text. -/
  | verbatim (text : String)
  | literal (literal : Literal)
  | number (value : Int)
  | attributeNamed (name : String)
  /-- The nodes on an axis that pass a test. -/
  | nodes (axis : Axis) (test : NodeTest)
  | call (function : Function) (arguments : List Expr)
  /-- An equation without blanks around its sign. -/
  | same (left right : Expr)
  | binary (operator : Operator) (left right : Expr)
  | group (body : Expr)
  /-- The negation of a list of terms. -/
  | negation (terms : List Expr)
  deriving Repr

mutual

def Expr.render : Expr → String
  | .verbatim text => text
  | .literal l => l.render
  | .number n => toString n
  | .attributeNamed name => "@" ++ name
  | .nodes axis test => axis.name ++ "::" ++ test.render
  | .call f arguments => f.name ++ "(" ++ ", ".intercalate (Expr.renderAll arguments) ++ ")"
  | .same a b => a.render ++ "=" ++ b.render
  | .binary op a b => a.render ++ " " ++ op.symbol ++ " " ++ b.render
  | .group e => "(" ++ e.render ++ ")"
  | .negation terms => "not(" ++ " and ".intercalate (Expr.renderAll terms) ++ ")"

def Expr.renderAll : List Expr → List String
  | [] => []
  | e :: rest => e.render :: Expr.renderAll rest

end

/-- The text of terms that all have to hold. -/
def renderTerms (terms : List Expr) : String := " and ".intercalate (Expr.renderAll terms)

/-- A location step. Each of its brackets holds a list of terms. -/
structure Step where
  axis : Axis
  test : NodeTest
  brackets : List (List Expr)
  deriving Repr

def Step.render (step : Step) : String :=
  step.axis.name ++ "::" ++ step.test.render ++
    String.join (step.brackets.map fun terms => "[" ++ renderTerms terms ++ "]")

/-- A location path, from the root of the document or from the context. -/
structure Path where
  fromRoot : Bool
  steps : List Step
  deriving Repr

def Path.render (path : Path) : String :=
  (if path.fromRoot then "/" else "") ++ "/".intercalate (path.steps.map Step.render)

/-- What stands between the paths of a union. -/
def unionSign : String := " | "

/-- The text of a union of paths. -/
def renderUnion (paths : List Path) : String := unionSign.intercalate (paths.map Path.render)

end SelectorPath.XPath
