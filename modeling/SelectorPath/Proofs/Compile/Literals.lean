import SelectorPath.Proofs.Compile.Attributes

/-!
How a text is put into an expression. It becomes one literal, or literals that are put together if
it has both quotes; what is written is read back as just that, and its value is the text
(`Expr.ofText_written`).
-/

namespace SelectorPath.XPath

open Text Syntax

/-- The quote of a literal ends it, as its text does not hold the quote. -/
def Literal.Closed (l : Literal) : Prop := l.quote.char ∉ l.text.toList

/-- How literals are written and what is read there: one alone, or two or more put together. -/
inductive Literal.Written : List Literal → String → Tree → Prop
  | alone (l : Literal) : Written [l] l.render (.literal l.text)
  | together (ls : List Literal) (h : 2 ≤ ls.length) :
      Written ls ("concat(" ++ ", ".intercalate (ls.map Literal.render) ++ ")")
        (.call "concat" (ls.map fun l => .literal l.text))

namespace Expr

/-- The literals that a text is put together from. -/
def literalsOf (text : String) : List Literal :=
  if '"' ∉ text.toList then [⟨.double, text⟩]
  else if '\'' ∉ text.toList then [⟨.single, text⟩]
  else (pieces text.toList).map fun piece => ⟨piece.1, String.ofList piece.2⟩

theorem literalsOf_closed (text : String) : ∀ l ∈ literalsOf text, l.Closed := by
  unfold literalsOf
  split
  · next hdouble => exact List.forall_mem_singleton.mpr hdouble
  · split
    · next hsingle => exact List.forall_mem_singleton.mpr hsingle
    · intro l hl
      obtain ⟨piece, hpiece, rfl⟩ := List.mem_map.mp hl
      simpa [Literal.Closed] using pieces_quote piece hpiece

/-- More than one literal is needed if and only if the text has both quotes. -/
theorem two_le_length_literalsOf (text : String) :
    2 ≤ (literalsOf text).length ↔ '"' ∈ text.toList ∧ '\'' ∈ text.toList := by
  unfold literalsOf
  split
  · next hdouble => simp [hdouble]
  · split
    · next hsingle => simp [hsingle]
    · next hdouble hsingle =>
      rw [not_not] at hdouble hsingle
      simpa [hdouble, hsingle] using two_le_length_pieces hdouble hsingle

/-- The expression of a text is its literal, or the call with its literals as arguments. -/
theorem ofText_eq (text : String) :
    (∃ l, literalsOf text = [l] ∧ ofText text = .literal l) ∨
      (2 ≤ (literalsOf text).length ∧
        ofText text = .call .concat ((literalsOf text).map .literal)) := by
  by_cases hdouble : '"' ∈ text.toList
  · by_cases hsingle : '\'' ∈ text.toList
    · refine .inr ⟨(two_le_length_literalsOf text).mpr ⟨hdouble, hsingle⟩, ?_⟩
      simp [ofText, literalsOf, hdouble, hsingle]
    · exact .inl ⟨⟨.single, text⟩, by simp [ofText, literalsOf, hdouble, hsingle]⟩
  · exact .inl ⟨⟨.double, text⟩, by simp [ofText, literalsOf, hdouble]⟩

theorem ofText_written_tree (text : String) :
    Literal.Written (literalsOf text) (ofText text).render (ofText text).tree := by
  rcases ofText_eq text with ⟨l, hliterals, hexpr⟩ | ⟨hlength, hexpr⟩
  · rw [hliterals, hexpr]
    exact .alone l
  · have hwritten := Literal.Written.together (literalsOf text) hlength
    rw [hexpr]
    simpa [Expr.render, Expr.tree, Expr.renderAll_eq_map, Expr.trees_eq_map, Function.comp_def,
      Function.name] using hwritten

/-- An expression that can stand in a conjunction is read back from its text. -/
theorem ofText?_render {e : Expr} (h : IsTerm e) : Tree.ofText? e.render = some e.tree := by
  have hterms : TermsWellFormed [e] := termsWellFormed_of_isTerm (List.cons_ne_nil e []) (by simpa)
  simpa [renderTerms, Expr.renderAll, Expr.trees, Tree.chain] using ofText?_renderTerms hterms

theorem ofText_isTerm (text : String) : IsTerm (ofText text) := by
  obtain ⟨hwellFormed, hlevel⟩ := ofText_wellFormed text
  exact ⟨hwellFormed, by rw [hlevel]; decide⟩

/-- What is written for a text is one literal, or `concat` with two or more literals as its
arguments if the text has both quotes. No literal holds its own quote, so it is read back as just
that, and its value is the text wherever it stands. -/
theorem ofText_written (text : String) : ∃ ls tree,
    (∀ l ∈ ls, l.Closed) ∧ Literal.Written ls (ofText text).render tree ∧
      (2 ≤ ls.length ↔ '"' ∈ text.toList ∧ '\'' ∈ text.toList) ∧
      Tree.ofText? (ofText text).render = some tree ∧
      ∀ doc context, tree.eval? doc context = some (.text text.toList) :=
  ⟨literalsOf text, (ofText text).tree, literalsOf_closed text, ofText_written_tree text,
    two_le_length_literalsOf text, ofText?_render (ofText_isTerm text),
    fun _ _ => eval?_ofText text⟩

/-- Quotes at the ends and next to each other leave no empty literals. -/
example : (ofText "\"a'\"\"").render = "concat('\"', \"a'\", '\"', '\"')" := by decide +kernel

end Expr

end SelectorPath.XPath
