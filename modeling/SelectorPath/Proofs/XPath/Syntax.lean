import SelectorPath.Proofs.Text.Classes
import SelectorPath.Text.Decimal

/-!
The notation of XPath 1.0: how a text is cut into tokens (`tokens`) and how tokens make up an
expression tree (`Tree.ofText?`). Left out are variables, names with a namespace, and
predicates and steps after anything but a step; a text with these has no tree here.

A token is as long as it can be. After an operand a star is a multiplication and a name is an
operator; elsewhere a star is a name test, and a name is that of a function if a parenthesis
follows, that of an axis if `::` follows, and a name test otherwise. A literal ends at the
next quote of its kind.

Each recursion asks that less is left than before. This is so whenever something was read.
-/

namespace SelectorPath.XPath.Syntax

open Text

/-- The operators with two operands. -/
inductive Op where
  | or
  | and
  | equal
  | notEqual
  | less
  | atMost
  | greater
  | atLeast
  | plus
  | minus
  | times
  | div
  | mod
  | union
  deriving DecidableEq, Repr

/-- How tightly an operator binds. Between multiplications and unions stands the sign. -/
def Op.level : Op → Nat
  | .or => 0
  | .and => 1
  | .equal | .notEqual => 2
  | .less | .atMost | .greater | .atLeast => 3
  | .plus | .minus => 4
  | .times | .div | .mod => 5
  | .union => 7

/-- The level of a sign. -/
def signLevel : Nat := 6

/-- The level of paths and of what stands in parentheses. -/
def pathLevel : Nat := 8

inductive Token where
  | openParen
  | closeParen
  | openBracket
  | closeBracket
  | comma
  | attributeSign
  | axisSign
  | dot
  | dotDot
  | slash
  | slashes
  | operator (op : Op)
  | star
  | name (text : List Char)
  | function (text : List Char)
  | axis (text : List Char)
  | literal (text : List Char)
  | number (text : List Char)
  deriving DecidableEq, Repr

/-- After such a token a star or a name is an operator. -/
def Token.endsOperand : Token → Bool
  | .openParen | .openBracket | .comma | .attributeSign | .axisSign | .slash | .slashes
  | .operator _ => false
  | _ => true

/-! ## Tokens -/

/-- The digits of numbers. -/
def isNumeral (c : Char) : Bool := '0' ≤ c && c ≤ '9'

def operatorNamed? (name : List Char) : Option Op :=
  if name = "and".toList then some .and
  else if name = "or".toList then some .or
  else if name = "div".toList then some .div
  else if name = "mod".toList then some .mod
  else none

/-- What a name is, by whether an operand stands before it and by the text after it. -/
def classify (afterOperand : Bool) (name rest : List Char) : Option Token :=
  if afterOperand then (operatorNamed? name).map .operator
  else match rest.dropWhile isXmlSpace with
    | '(' :: _ => some (.function name)
    | ':' :: ':' :: _ => some (.axis name)
    | _ => some (.name name)

/-- The digits after the point of a number, with the point. -/
def splitFraction : List Char → List Char × List Char
  | '.' :: rest => ('.' :: rest.takeWhile isNumeral, rest.dropWhile isNumeral)
  | rest => ([], rest)

/-- The token at the start of a text that does not start with white space, and the text after
it. -/
def nextToken (afterOperand : Bool) : List Char → Option (Token × List Char)
  | [] => none
  | '(' :: s => some (.openParen, s)
  | ')' :: s => some (.closeParen, s)
  | '[' :: s => some (.openBracket, s)
  | ']' :: s => some (.closeBracket, s)
  | ',' :: s => some (.comma, s)
  | '@' :: s => some (.attributeSign, s)
  | ':' :: ':' :: s => some (.axisSign, s)
  | '/' :: '/' :: s => some (.slashes, s)
  | '/' :: s => some (.slash, s)
  | '|' :: s => some (.operator .union, s)
  | '+' :: s => some (.operator .plus, s)
  | '-' :: s => some (.operator .minus, s)
  | '=' :: s => some (.operator .equal, s)
  | '!' :: '=' :: s => some (.operator .notEqual, s)
  | '<' :: '=' :: s => some (.operator .atMost, s)
  | '<' :: s => some (.operator .less, s)
  | '>' :: '=' :: s => some (.operator .atLeast, s)
  | '>' :: s => some (.operator .greater, s)
  | '*' :: s => some (if afterOperand then .operator .times else .star, s)
  | '.' :: '.' :: s => some (.dotDot, s)
  | c :: s =>
    if c = '"' ∨ c = '\'' then
      match s.dropWhile (· ≠ c) with
      | [] => none
      | _ :: rest => some (.literal (s.takeWhile (· ≠ c)), rest)
    else if isNumeral c || (c == '.' && headIs isNumeral s) then
      let whole := (c :: s).takeWhile isNumeral
      let (fraction, rest) := splitFraction ((c :: s).dropWhile isNumeral)
      some (.number (whole ++ fraction), rest)
    else if c = '.' then some (.dot, s)
    else if isNameStart c then
      let rest := s.dropWhile isAttributePart
      (classify afterOperand (c :: s.takeWhile isAttributePart) rest).map (·, rest)
    else none

/-- The tokens of a text, given whether an operand stands before it. -/
def tokensFrom (afterOperand : Bool) (s : List Char) : Option (List Token) :=
  match s with
  | [] => some []
  | c :: s =>
    if isXmlSpace c then tokensFrom afterOperand s
    else do
      let (token, rest) ← nextToken afterOperand (c :: s)
      if rest.length ≤ s.length then (tokensFrom token.endsOperand rest).map (token :: ·) else none
termination_by s.length

def tokens (s : List Char) : Option (List Token) := tokensFrom false s

/-! ## Trees -/

inductive AxisName where
  | ancestor
  | ancestorOrSelf
  | attribute
  | child
  | descendant
  | descendantOrSelf
  | following
  | followingSibling
  | namespaces
  | parent
  | preceding
  | precedingSibling
  | self
  deriving DecidableEq, Repr

def AxisName.all : List (String × AxisName) :=
  [("ancestor", .ancestor), ("ancestor-or-self", .ancestorOrSelf), ("attribute", .attribute),
   ("child", .child), ("descendant", .descendant), ("descendant-or-self", .descendantOrSelf),
   ("following", .following), ("following-sibling", .followingSibling),
   ("namespace", .namespaces), ("parent", .parent), ("preceding", .preceding),
   ("preceding-sibling", .precedingSibling), ("self", .self)]

def AxisName.ofName? (name : List Char) : Option AxisName := AxisName.all.lookup (String.ofList name)

inductive Test where
  | any
  | named (name : String)
  /-- A test by the kind of a node, such as `node()`. -/
  | kind (name : String)
  deriving DecidableEq, Repr

def isNodeKind (name : List Char) : Bool :=
  String.ofList name ∈ ["comment", "text", "processing-instruction", "node"]

mutual

inductive Tree where
  | binary (op : Op) (left right : Tree)
  | negative (body : Tree)
  | literal (text : String)
  | number (value : Nat)
  | call (function : String) (arguments : List Tree)
  | path (fromRoot : Bool) (steps : List TreeStep)

inductive TreeStep where
  | mk (axis : AxisName) (test : Test) (predicates : List Tree)

end

/-- The step that `//` stands for. -/
def TreeStep.anywhere : TreeStep := .mk .descendantOrSelf (.kind "node") []

/-- Whether a location step starts with a token. -/
def Token.startsStep : Token → Bool
  | .axis _ | .attributeSign | .name _ | .star | .dot | .dotDot => true
  | .function text => isNodeKind text
  | _ => false

/-- The axis of a step. Without one it is the axis of children. -/
def readAxis : List Token → Option (AxisName × List Token)
  | .axis name :: .axisSign :: rest => (AxisName.ofName? name).map (·, rest)
  | .attributeSign :: rest => some (.attribute, rest)
  | rest => some (.child, rest)

def readTest : List Token → Option (Test × List Token)
  | .star :: rest => some (.any, rest)
  | .name name :: rest => some (.named (String.ofList name), rest)
  | .function name :: .openParen :: .closeParen :: rest =>
    if isNodeKind name then some (.kind (String.ofList name), rest) else none
  | _ => none

mutual

/-- An expression whose operators bind at least as tightly as a level. -/
def readTree (level : Nat) (tokens : List Token) : Option (Tree × List Token) :=
  if level = signLevel then
    match tokens with
    | .operator .minus :: rest => do
      let (body, rest) ← readTree level rest
      some (.negative body, rest)
    | tokens => readTree (level + 1) tokens
  else if level < pathLevel then do
    let (left, rest) ← readTree (level + 1) tokens
    if rest.length < tokens.length then readOperands level left rest else none
  else readPrimary tokens
termination_by (tokens.length, 4 + (pathLevel - level))
decreasing_by
  · exact .left _ _ (Nat.lt_succ_self _)
  · next hsign => exact .right _ (by simp only [signLevel, pathLevel] at *; omega)
  · exact .right _ (by omega)
  · next hfewer => exact .left _ _ hfewer
  · exact .right _ (by omega)

/-- What follows the left operand of operators of a level, which associate to the left. -/
def readOperands (level : Nat) (left : Tree) (tokens : List Token) :
    Option (Tree × List Token) :=
  match tokens with
  | .operator op :: rest =>
    if op.level = level then do
      let (right, others) ← readTree (level + 1) rest
      if others.length < rest.length then readOperands level (.binary op left right) others
      else none
    else some (left, tokens)
  | _ => some (left, tokens)
termination_by (tokens.length, 0)

def readPrimary (tokens : List Token) : Option (Tree × List Token) :=
  match tokens with
  | .literal text :: rest => some (.literal (String.ofList text), rest)
  | .number text :: rest => (natural? text).map (.number ·, rest)
  | .openParen :: rest => do
    let (body, rest) ← readTree 0 rest
    match rest with
    | .closeParen :: rest => some (body, rest)
    | _ => none
  | .function name :: .openParen :: rest =>
    if isNodeKind name then readPath false (.function name :: .openParen :: rest)
    else match rest with
      | .closeParen :: rest => some (.call (String.ofList name) [], rest)
      | rest => do
        let (arguments, rest) ← readArguments rest
        some (.call (String.ofList name) arguments, rest)
  | .slash :: rest =>
    if rest.head?.any Token.startsStep then readPath true rest else some (.path true [], rest)
  | .slashes :: rest => do
    let (steps, rest) ← readSteps rest
    some (.path true (.anywhere :: steps), rest)
  | tokens => readPath false tokens
termination_by (tokens.length, 3)

/-- One or more expressions with commas between them, and the parenthesis after them. -/
def readArguments (tokens : List Token) : Option (List Tree × List Token) := do
  let (first, rest) ← readTree 0 tokens
  match rest with
  | .comma :: rest =>
    if rest.length < tokens.length then do
      let (others, rest) ← readArguments rest
      some (first :: others, rest)
    else none
  | .closeParen :: rest => some ([first], rest)
  | _ => none
termination_by (tokens.length, 5 + pathLevel)

def readPath (fromRoot : Bool) (tokens : List Token) : Option (Tree × List Token) := do
  let (steps, rest) ← readSteps tokens
  some (.path fromRoot steps, rest)
termination_by (tokens.length, 2)

def readSteps (tokens : List Token) : Option (List TreeStep × List Token) := do
  let (step, rest) ← readStep tokens
  match rest with
  | .slash :: rest =>
    if rest.length < tokens.length then do
      let (steps, rest) ← readSteps rest
      some (step :: steps, rest)
    else none
  | .slashes :: rest =>
    if rest.length < tokens.length then do
      let (steps, rest) ← readSteps rest
      some (step :: .anywhere :: steps, rest)
    else none
  | _ => some ([step], rest)
termination_by (tokens.length, 1)

def readStep (tokens : List Token) : Option (TreeStep × List Token) :=
  match tokens with
  | .dot :: rest => some (.mk .self (.kind "node") [], rest)
  | .dotDot :: rest => some (.mk .parent (.kind "node") [], rest)
  | tokens => do
    let (axis, rest) ← readAxis tokens
    let (test, rest) ← readTest rest
    if rest.length < tokens.length then do
      let (predicates, rest) ← readPredicates rest
      some (.mk axis test predicates, rest)
    else none
termination_by (tokens.length, 0)

def readPredicates (tokens : List Token) : Option (List Tree × List Token) :=
  match tokens with
  | .openBracket :: rest => do
    let (first, others) ← readTree 0 rest
    match others with
    | .closeBracket :: others =>
      if others.length < rest.length then do
        let (predicates, rest) ← readPredicates others
        some (first :: predicates, rest)
      else none
    | _ => none
  | _ => some ([], tokens)
termination_by (tokens.length, 0)

end

/-- The tree of an expression that is the whole of a text. -/
def Tree.ofText? (text : String) : Option Tree := do
  let (tree, rest) ← readTree 0 (← tokens text.toList)
  if rest.isEmpty then some tree else none

end SelectorPath.XPath.Syntax
