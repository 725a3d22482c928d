import SelectorPath.Pattern.Reader

/-!
The kinds of tokens that selectors are made of, each with its pattern. Kinds may overlap:
the reader asks for the kind that it expects, so white space can be a mere separator in
one place and the combinator for descendants in another.
-/

namespace SelectorPath

inductive TokenKind where
  | spaces
  | comma
  | universal
  | element
  | className
  | id
  | leftBracket
  | rightBracket
  | attributeName
  | attributeValue
  | identifier
  | attributeOperator
  | pseudoClass
  | leftParen
  | rightParen
  | number
  | odd
  | even
  | n
  | sign
  | adjacentTo
  | precedes
  | parentOf
  | ancestorOf
  deriving DecidableEq, Repr

namespace TokenKind

/-- Every kind, in the order in which tables list them. -/
def all : List TokenKind :=
  [.spaces, .comma, .universal, .element, .className, .id, .leftBracket, .rightBracket,
   .attributeName, .attributeValue, .identifier, .attributeOperator, .pseudoClass, .leftParen,
   .rightParen, .number, .odd, .even, .n, .sign, .adjacentTo, .precedes, .parentOf, .ancestorOf]

theorem mem_all (kind : TokenKind) : kind ∈ all := by cases kind <;> decide

def name : TokenKind → String
  | .spaces => "spaces"
  | .comma => "comma"
  | .universal => "universal"
  | .element => "element"
  | .className => "class"
  | .id => "id"
  | .leftBracket => "l-bracket"
  | .rightBracket => "r-bracket"
  | .attributeName => "attr-name"
  | .attributeValue => "attr-value"
  | .identifier => "ident"
  | .attributeOperator => "attr-operator"
  | .pseudoClass => "pseudo-class"
  | .leftParen => "l-paren"
  | .rightParen => "r-paren"
  | .number => "number"
  | .odd => "odd"
  | .even => "even"
  | .n => "n"
  | .sign => "sign"
  | .adjacentTo => "adjacent-to"
  | .precedes => "precedes"
  | .parentOf => "parent-of"
  | .ancestorOf => "ancestor-of"

/-- The kind with a given name. -/
def ofName? (name : String) : Option TokenKind := all.find? (·.name == name)

/-- The pattern of each kind as it is written. -/
def source : TokenKind → String
  | .spaces | .ancestorOf => "\\s+"
  | .comma => "\\s*,"
  | .universal => "\\*"
  | .element => "[_a-zA-Z][-\\w]*"
  | .className => "\\.[-_\\w]+"
  | .id => "#[-_\\w]+"
  | .leftBracket => "\\["
  | .rightBracket => "\\]"
  | .attributeName => "[_a-zA-Z][-\\w.]*"
  | .attributeValue => "(?:\"(?:\\\\.|[^\"\\\\])*\"|'(?:\\\\.|[^'\\\\])*')"
  | .identifier => "[-_a-zA-Z][-\\w]*"
  | .attributeOperator => "[~|^$*!]?="
  | .pseudoClass => ":[-_a-zA-Z]+"
  | .leftParen => "\\("
  | .rightParen => "\\)"
  | .number => "\\d+"
  | .odd => "(?i:odd)"
  | .even => "(?i:even)"
  | .n => "[nN]"
  | .sign => "[-+]"
  | .adjacentTo => "\\s*\\+"
  | .precedes => "\\s*~"
  | .parentOf => "\\s*>"

open Pattern CharClass

/-- A text in quotes: escaped characters and characters other than the quote. -/
def quotedPattern (quote : Char) : Pattern :=
  .seq (.char quote)
    (.seq (zeroOrMore true (.alt (.seq (.char '\\') (.one .anyButLineFeed))
        (.one ⟨[.single quote, .single '\\'], true⟩)))
      (.char quote))

/-- The letters that a name can start with, after the underscore. -/
def letters : List CharClass := [.range 'a' 'z', .range 'A' 'Z']

/-- A letter of the keywords in either case. -/
def letterPattern (c : Char) : Pattern := .one (CharSet.single c).foldCase

/-- White space before a sign that stands for itself. -/
def spacedPattern (c : Char) : Pattern := .seq (zeroOrMore true (.one (.of [.space]))) (.char c)

/-- The pattern of each kind. -/
def pattern : TokenKind → Pattern
  | .spaces | .ancestorOf => oneOrMore true (.one (.of [.space]))
  | .comma => spacedPattern ','
  | .universal => .char '*'
  | .element =>
    .seq (.one (.of (.single '_' :: letters))) (zeroOrMore true (.one (.of [.single '-', .word])))
  | .className => .seq (.char '.') (oneOrMore true (.one (.of [.single '-', .single '_', .word])))
  | .id => .seq (.char '#') (oneOrMore true (.one (.of [.single '-', .single '_', .word])))
  | .leftBracket => .char '['
  | .rightBracket => .char ']'
  | .attributeName =>
    .seq (.one (.of (.single '_' :: letters)))
      (zeroOrMore true (.one (.of [.single '-', .word, .single '.'])))
  | .attributeValue => .alt (quotedPattern '"') (quotedPattern '\'')
  | .identifier =>
    .seq (.one (.of (.single '-' :: .single '_' :: letters)))
      (zeroOrMore true (.one (.of [.single '-', .word])))
  | .attributeOperator =>
    .seq (optional true (.one (.of ("~|^$*!".toList.map .single)))) (.char '=')
  | .pseudoClass =>
    .seq (.char ':') (oneOrMore true (.one (.of (.single '-' :: .single '_' :: letters))))
  | .leftParen => .char '('
  | .rightParen => .char ')'
  | .number => oneOrMore true (.one (.of [.digit]))
  | .odd => Pattern.all ("odd".toList.map letterPattern)
  | .even => Pattern.all ("even".toList.map letterPattern)
  | .n => .one (.of [.single 'n', .single 'N'])
  | .sign => .one (.of [.single '-', .single '+'])
  | .adjacentTo => spacedPattern '+'
  | .precedes => spacedPattern '~'
  | .parentOf => spacedPattern '>'

/-- The written pattern of a kind reads as its pattern. -/
theorem ofText?_source (kind : TokenKind) : Pattern.ofText? kind.source = some kind.pattern := by
  cases kind <;> decide +kernel

end TokenKind

end SelectorPath
