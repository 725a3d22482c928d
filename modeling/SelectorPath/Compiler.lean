import SelectorPath.Compile.Selector
import SelectorPath.Selector.List

/-!
From the text of a selector list to the text of an XPath expression.
-/

namespace SelectorPath

structure Options where
  anchor : Anchor
  policy : ListPolicy
  /-- The greatest length of the text in bytes, if there is one. -/
  maxLength : Option Nat
  deriving DecidableEq, Repr

/-- Paths from the context, every member has to be right, and no limit on the length. -/
def Options.standard : Options := ⟨.context, .strict, none⟩

namespace SelectorList

/-- The XPath text of selectors. -/
def xpath (anchor : Anchor) (selectors : List Selector) : String :=
  XPath.renderUnion (selectors.map (Selector.path anchor))

/-- Nothing but white space is left after a list. -/
def finish (lexicon : Lexicon) (c : Cursor) : Except SelectorError Unit :=
  if (lexicon.skip .spaces c).atEnd then .ok () else .error (trailing lexicon c)

/-- The list that a whole text holds. -/
def ofText (lexicon : Lexicon) (options : Options) (text : String) :
    Except SelectorError SelectorList := do
  let length := Text.byteLength text.toList
  match options.maxLength with
  | some limit => if limit < length then .error (.tooLong length limit)
  | none => pure ()
  let (list, c) ← read lexicon options.policy (.start text)
  finish lexicon c
  return list

end SelectorList

/-- The XPath text for the selector list that a text holds. -/
def compile (lexicon : Lexicon) (options : Options) (text : String) :
    Except SelectorError String := do
  let list ← SelectorList.ofText lexicon options text
  return SelectorList.xpath options.anchor list.selectors

end SelectorPath
