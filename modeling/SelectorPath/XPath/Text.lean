import SelectorPath.XPath.Basic

/-!
Expressions for texts. A literal cannot hold its own quote, so a text with both quotes is
put together from several literals.
-/

namespace SelectorPath.XPath

/-- Literals that make up a text: a double quote is one of its own, and the runs between
are in double quotes. -/
def pieces : List Char → List (Quote × List Char)
  | [] => []
  | c :: rest =>
    if c = '"' then (.single, ['"']) :: pieces rest
    else match pieces rest with
      | (.double, run) :: more => (.double, c :: run) :: more
      | more => (.double, [c]) :: more

/-- The expression whose value is a text. -/
def Expr.ofText (text : String) : Expr :=
  if '"' ∉ text.toList then .literal ⟨.double, text⟩
  else if '\'' ∉ text.toList then .literal ⟨.single, text⟩
  else .call .concat ((pieces text.toList).map fun (quote, run) =>
    .literal ⟨quote, String.ofList run⟩)

end SelectorPath.XPath
