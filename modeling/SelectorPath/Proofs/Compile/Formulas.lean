import SelectorPath.Proofs.Compile.Positions
import SelectorPath.Proofs.Compile.WellFormed

/-!
The texts of formulas. Whatever operand stands for a position, the text for a formula reads as an
expression whose value is a truth value, and it is true at the positions that the formula
selects (`Formula.predicate_selects`).
-/

namespace SelectorPath

open XPath Syntax

/-! ## Texts -/

/-- The text that tests a position, given the text that stands for the position. -/
def Formula.predicate (formula : Formula) (index : String) : String :=
  renderTerms (formula.terms (.verbatim index))

namespace Formula

/-- Of the index, only its text matters for the distance. -/
theorem render_distance (index : Expr) (constant : Int) :
    (distance (.verbatim index.render) constant).render = (distance index constant).render := by
  unfold distance
  split
  · rfl
  · split <;> rfl

theorem render_leaves {e f : Expr} (h : e.render = f.render) (modulus remainder : Int) :
    (leaves e modulus remainder).render = (leaves f modulus remainder).render := by
  simp only [leaves, Expr.render, h]

theorem render_linearTerms (a b : Int) (index : Expr) :
    (linearTerms a b (.verbatim index.render)).map Expr.render =
      (linearTerms a b index).map Expr.render := by
  unfold linearTerms
  split
  · rfl
  · split
    · split <;> rfl
    · split
      · have hleaves := render_leaves (render_distance index b) a 0
        split <;> simp [hleaves, Expr.render]
      · split
        · rfl
        · split <;> rfl

/-- Of the index, only its text matters. -/
theorem predicate_render (formula : Formula) (index : Expr) :
    formula.predicate index.render = renderTerms (formula.terms index) := by
  simp only [predicate, renderTerms, Expr.renderAll_eq_map]
  congr 1
  cases formula with
  | even | odd => rfl
  | linear a b => exact render_linearTerms a.toInt b.toInt index

theorem terms_ne_nil (formula : Formula) (index : Expr) : formula.terms index ≠ [] := by
  cases formula with
  | even | odd => exact List.cons_ne_nil _ _
  | linear a b =>
    simp only [terms, linearTerms]
    repeat' split
    all_goals exact List.cons_ne_nil _ _

end Formula

/-! ## Truth values -/

/-- Expressions that have a truth value if they have a value: comparisons and constants. -/
def XPath.Expr.IsComparison : Expr → Prop
  | .binary op _ _ => op = .equal ∨ op = .atMost ∨ op = .atLeast
  | .call f arguments => (f = .constTrue ∨ f = .constFalse) ∧ arguments = []
  | _ => False

theorem Formula.terms_isComparison (formula : Formula) (index : Expr) :
    ∀ e ∈ formula.terms index, e.IsComparison := by
  cases formula with
  | even | odd => simp [terms, leaves, Expr.IsComparison]
  | linear a b =>
    simp only [terms, linearTerms]
    repeat' split
    all_goals simp [leaves, Expr.IsComparison]

section Evaluation

variable {doc : Document} {context : Context}

theorem XPath.Expr.IsComparison.boolean {e : Expr} (h : e.IsComparison) {v : Value}
    (hv : e.tree.eval? doc context = some v) : ∃ b, v = .boolean b := by
  cases e with
  | binary op a b =>
    simp only [Expr.tree, Tree.eval?, Option.bind_eq_bind, Option.bind_eq_some_iff] at hv
    obtain ⟨x, -, y, -, hxy⟩ := hv
    rcases h with rfl | rfl | rfl
    · obtain ⟨b, -, rfl⟩ := Option.map_eq_some_iff.mp hxy
      exact ⟨b, rfl⟩
    · cases x <;> cases y <;> simp [Operator.toOp, Op.value?] at hxy
      exact ⟨_, hxy.symm⟩
    · cases x <;> cases y <;> simp [Operator.toOp, Op.value?] at hxy
      exact ⟨_, hxy.symm⟩
  | call f arguments =>
    obtain ⟨rfl | rfl, rfl⟩ := h
    · exact ⟨true, (Option.some.inj hv).symm⟩
    · exact ⟨false, (Option.some.inj hv).symm⟩
  | _ => exact h.elim

/-- The conjunction of comparisons has a truth value if it has a value. -/
theorem chain_boolean {terms : List Expr} (hne : terms ≠ [])
    (h : ∀ e ∈ terms, e.IsComparison) {v : Value}
    (hv : (Tree.chain .and (Expr.trees terms)).eval? doc context = some v) :
    ∃ b, v = .boolean b := by
  rw [Expr.trees_eq_map] at hv
  cases terms using List.reverseRecOn with
  | nil => exact absurd rfl hne
  | append_singleton rest last =>
    cases rest with
    | nil => exact (h last (by simp)).boolean hv
    | cons first rest =>
      -- The outermost operator of several terms is the last conjunction.
      rw [List.cons_append, List.map_cons, List.map_append, Tree.chain, List.foldl_append] at hv
      simp only [List.map_cons, List.map_nil, List.foldl_cons, List.foldl_nil, Tree.eval?,
        Option.bind_eq_bind, Option.bind_eq_some_iff] at hv
      obtain ⟨x, -, y, -, hxy⟩ := hv
      exact ⟨_, (Option.some.inj hxy).symm⟩

/-! ## Positions -/

/-- An operand that no operator around it can split, and whose value is a number. -/
structure XPath.Expr.StandsFor (doc : Document) (context : Context) (index : Expr) (p : Int) :
    Prop where
  wellFormed : index.WellFormed
  operand : index.level = pathLevel
  value : index.tree.eval? doc context = some (.number p)

/-- Both ways to refer to a position are such operands. -/
theorem Position.Shows.standsFor {position : Position} {rank fromEnd : Nat}
    (h : position.Shows doc context rank fromEnd) (hposition : position.WellFormed) :
    position.index.StandsFor doc context rank :=
  ⟨(index_wellFormed hposition).1, (index_wellFormed hposition).2, h.index⟩

/-- The text of a formula reads as an expression that tests whether the formula selects the
position that the operand stands for. -/
theorem Formula.exists_predicate_value (formula : Formula) {index : Expr} {p : Int}
    (hindex : index.StandsFor doc context p) (hp : 1 ≤ p) :
    ∃ tree value, Tree.ofText? (formula.predicate index.render) = some tree ∧
      tree.eval? doc context = some (.boolean value) ∧
      (value = true ↔ formula.Selects p.toNat) := by
  have hne := formula.terms_ne_nil index
  have hnat : (p.toNat : Int) = p := Int.toNat_of_nonneg (by omega)
  have hread : Tree.ofText? (formula.predicate index.render) =
      some (.chain .and (Expr.trees (formula.terms index))) := by
    rw [predicate_render]
    exact ofText?_renderTerms (termsWellFormed_of_isTerm hne
      (formula.terms_isTerm hindex.wellFormed hindex.operand))
  obtain ⟨v, hv, -, hiff⟩ :=
    (formula.terms_testAll (hnat.symm ▸ hindex.value) (by omega)).chain hne
  obtain ⟨value, rfl⟩ := chain_boolean hne (formula.terms_isComparison index) hv
  exact ⟨_, value, hread, hv, hiff⟩

/-- The positions of a formula, with an integer in place of a natural number. -/
theorem Formula.selects_toNat_iff {formula : Formula} {n : Int} (hn : 1 ≤ n) :
    formula.Selects n.toNat ↔
      ∃ k : Int, 0 ≤ k ∧ n = formula.coefficients.1 * k + formula.coefficients.2 := by
  rw [Selects, Int.toNat_of_nonneg (by omega)]
  constructor
  · rintro ⟨k, hk⟩
    exact ⟨k, Int.natCast_nonneg k, hk⟩
  · rintro ⟨k, hk, hn⟩
    exact ⟨k.toNat, by rw [Int.toNat_of_nonneg hk, hn]⟩

/-- The text of a formula, with an operand for a position, is an expression that is true or
false. It is true if the position is `a*k + b` for an integer `k` that is not negative. -/
theorem Formula.predicate_selects (formula : Formula) {index : Expr} {p : Int}
    (hindex : index.StandsFor doc context p) (hp : 1 ≤ p) :
    ∃ tree value, Tree.ofText? (formula.predicate index.render) = some tree ∧
      tree.eval? doc context = some (.boolean value) ∧
      (value = true ↔ ∃ k : Int, 0 ≤ k ∧
        p = formula.coefficients.1 * k + formula.coefficients.2) := by
  obtain ⟨tree, value, hread, heval, hvalue⟩ := formula.exists_predicate_value hindex hp
  rw [selects_toNat_iff hp] at hvalue
  exact ⟨tree, value, hread, heval, hvalue⟩

end Evaluation

/-- A formula with the least coefficient and the greatest constant selects that constant, and not
the first position. -/
theorem Formula.predicate_selects_extremes :
    let formula : Formula := .linear Int64.minValue Int64.maxValue
    let doc : Document := ⟨.mk "r" ∅ []⟩
    ∃ tree, Tree.ofText? (formula.predicate "position()") = some tree ∧
      tree.eval? doc ⟨.root, 9223372036854775807, 9223372036854775807⟩ = some (.boolean true) ∧
      tree.eval? doc ⟨.root, 1, 9223372036854775807⟩ = some (.boolean false) := by
  intro formula doc
  have hstands (p : Nat) (hp : 0 < p) (hsize : p ≤ 9223372036854775807) :
      Position.exact.index.StandsFor doc ⟨.root, p, 9223372036854775807⟩ p := by
    have hshows : Position.exact.Shows doc ⟨.root, p, 9223372036854775807⟩ p
        (9223372036854775808 - p) := Position.exact_shows hp rfl (by simp only; omega)
    exact hshows.standsFor trivial
  have hcoefficients : formula.coefficients = (-9223372036854775808, 9223372036854775807) := rfl
  obtain ⟨tree, value, htree, heval, hiff⟩ :=
    formula.predicate_selects (hstands 9223372036854775807 (by decide) (by decide)) (by decide)
  obtain ⟨tree', value', htree', heval', hiff'⟩ :=
    formula.predicate_selects (hstands 1 (by decide) (by decide)) (by decide)
  obtain rfl : tree' = tree := Option.some.inj (htree'.symm.trans htree)
  rw [hcoefficients] at hiff hiff'
  have htrue : value = true := hiff.mpr ⟨0, by decide, by decide⟩
  have hfalse : value' = false := by
    rw [← Bool.not_eq_true, hiff']
    rintro ⟨k, hk, hp⟩
    omega
  exact ⟨tree', htree, htrue ▸ heval, hfalse ▸ heval'⟩

end SelectorPath
