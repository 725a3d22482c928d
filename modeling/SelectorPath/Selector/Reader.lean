import SelectorPath.Selector.Compound

/-!
Reading selectors.
-/

namespace SelectorPath

namespace Combinator

/-- The combinators that have a sign. -/
def signs : List (TokenKind × Combinator) :=
  [(.adjacentTo, .nextSibling), (.precedes, .laterSibling), (.parentOf, .child)]

/-- The combinator at a place, if another compound has to follow. White space is one unless
the text ends after it, or a comma or a closing parenthesis comes next. -/
def read? (lexicon : Lexicon) (c : Cursor) : Option (Combinator × Cursor) :=
  let signed := signs.findSome? fun (kind, combinator) =>
    (lexicon.token kind c).map fun (_, after) => (combinator, after)
  match signed with
  | some found => some found
  | none =>
    match lexicon.token .ancestorOf c with
    | none => none
    | some (_, after) =>
      if after.atEnd || lexicon.peek .comma c || lexicon.peek .rightParen after then none
      else some (.descendant, after)

end Combinator

namespace Step

/-- The step at a place, if a combinator stands there. -/
def read? (lexicon : Lexicon) (c : Cursor) : Except SelectorError (Option (Step × Cursor)) :=
  match Combinator.read? lexicon c with
  | none => .ok none
  | some (combinator, after) =>
    (Compound.read lexicon after).map fun (compound, last) => some (⟨combinator, compound⟩, last)

end Step

namespace Selector

/-- A selector. A sign for children at its start makes the first step go to children of the
context; else that step goes to descendants. -/
def read (lexicon : Lexicon) (c : Cursor) : Except SelectorError (Selector × Cursor) := do
  let (combinator, c) := match lexicon.token .parentOf c with
    | some (_, after) => (.child, after)
    | none => (.descendant, c)
  let (compound, c) ← Compound.read lexicon c
  let (steps, c) ← c.readWhile (Step.read? lexicon)
  return (⟨⟨combinator, compound⟩ :: steps.map Prod.snd⟩, c)

end Selector

end SelectorPath
