import SelectorPath.Compile.Position
import SelectorPath.Proofs.Selector.Semantics
import SelectorPath.Proofs.XPath.Evaluation

/-!
What the terms of places and formulas test. A way to refer to positions shows those that an
element has from the front and from the end (`Position.Shows`); the terms then hold at the
places and positions that they are for.
-/

namespace SelectorPath

open XPath Syntax

section Evaluation

variable {doc : Document} {context : Context}

/-! ## Positions -/

/-- How a position refers to the rank of an element and to its rank from the end. -/
structure Position.Shows (doc : Document) (context : Context) (position : Position)
    (rank fromEnd : Nat) : Prop where
  pos : 0 < rank
  index : position.index.tree.eval? doc context = some (.number rank)
  first : Tests doc context position.first.tree (rank = 1)
  last : Tests doc context position.last.tree (fromEnd = 1)

theorem Position.exact_shows {rank fromEnd : Nat} (hpos : 0 < rank)
    (hposition : context.position = rank) (hsize : context.size + 1 = rank + fromEnd) :
    Position.exact.Shows doc context rank fromEnd := by
  have hindex : Position.exact.index.tree.eval? doc context = some (.number rank) := by
    rw [← hposition]
    rfl
  have hlast : (Expr.call .last []).tree.eval? doc context = some (.number context.size) := rfl
  refine ⟨hpos, hindex, ?_, ?_⟩
  · refine (Tests.of_boolean (eval?_same hindex (eval?_number 1) rfl)).congr ?_
    rw [beq_iff_eq]
    omega
  · refine (Tests.of_boolean (eval?_same hindex hlast rfl)).congr ?_
    rw [beq_iff_eq]
    omega

/-- Whether a sibling is counted. -/
def XPath.NodeTest.accepts (doc : Document) (test : NodeTest) (a : Address) : Bool :=
  match test with
  | .any => true
  | .named name => doc.name? a == some name

theorem passes_element {axis : AxisName} (h : axis ≠ .attribute) (test : NodeTest) :
    doc.passes axis test.toTest ∘ Node.element = test.accepts doc := by
  funext a
  cases test <;> simp [Document.passes, h, NodeTest.toTest, NodeTest.accepts, Node.isElement,
    Document.nodeName?]

theorem eval?_before {a : Address} (hnode : context.node = .element a) (test : NodeTest) :
    (Expr.nodes .precedingSibling test).tree.eval? doc context =
      some (.nodes (((Document.before a).filter (test.accepts doc)).reverse.map .element)) := by
  have haxis : doc.axis? .precedingSibling context.node =
      some ((Document.before a).reverse.map .element) := by
    rw [hnode]
    rfl
  have hnodup := (List.nodup_reverse.mpr (Document.before_nodup a)).map element_injective
  rw [Expr.tree, Axis.toName, eval?_nodes haxis hnodup, List.filter_map,
    passes_element (by decide), List.filter_reverse]

theorem eval?_after {a : Address} (hnode : context.node = .element a) (test : NodeTest) :
    (Expr.nodes .followingSibling test).tree.eval? doc context =
      some (.nodes (((doc.after a).filter (test.accepts doc)).map .element)) := by
  have haxis : doc.axis? .followingSibling context.node =
      some ((doc.after a).map .element) := by
    rw [hnode]
    rfl
  have hnodup := (doc.after_nodup a).map element_injective
  rw [Expr.tree, Axis.toName, eval?_nodes haxis hnodup, List.filter_map,
    passes_element (by decide)]

/-- There are no such nodes. -/
theorem negation_tests {e : Expr} {addresses : List Address}
    (h : e.tree.eval? doc context = some (.nodes (addresses.map .element))) :
    Tests doc context (Expr.negation [e]).tree (addresses.length + 1 = 1) := by
  refine (Tests.not ⟨_, h, rfl, Iff.rfl⟩).congr ?_
  cases addresses <;> simp [Value.toBool]

/-- Siblings are counted by their number. -/
theorem Position.counted_shows {a : Address} (hnode : context.node = .element a)
    (test : NodeTest) : (Position.counted test).Shows doc context
      (((Document.before a).filter (test.accepts doc)).length + 1)
      (((doc.after a).filter (test.accepts doc)).length + 1) := by
  refine ⟨Nat.succ_pos _, ?_, ?_, negation_tests (eval?_after hnode test)⟩
  · refine eval?_binary (eval?_call_one (eval?_before hnode test) rfl) (eval?_number 1) ?_
    simp [Operator.toOp, Op.value?]
  · exact (negation_tests (eval?_before hnode test)).congr (by rw [List.length_reverse])

theorem Position.counted_any_shows {a : Address} (hnode : context.node = .element a) :
    (Position.counted .any).Shows doc context
      (doc.rank .children a) (doc.rankFromEnd .children a) :=
  counted_shows hnode .any

theorem Position.counted_named_shows {a : Address} {name : String}
    (hnode : context.node = .element a) (hname : doc.name? a = some name) :
    (Position.counted (.named name)).Shows doc context
      (doc.rank .sameType a) (doc.rankFromEnd .sameType a) := by
  have halike : doc.alike .sameType a = (NodeTest.named name).accepts doc := by
    funext b
    rw [Document.alike, hname]
    rfl
  rw [Document.rank, Document.rankFromEnd, halike]
  exact counted_shows hnode (.named name)

theorem Position.Shows.place {position : Position} {rank fromEnd : Nat}
    (h : position.Shows doc context rank fromEnd) (p : Place) :
    TestAll doc context (position.place p) (p.Matches rank fromEnd) := by
  cases p with
  | first => exact .single h.first
  | last => exact .single h.last
  | only => exact (TestAll.single h.first).append (.single h.last)

/-! ## Formulas -/

/-- The numbers `a*k + b`, for a positive `a`, are those from `b` on with the right remainder. -/
theorem exists_mul_add_iff {a b p : Int} (ha : 0 < a) :
    (∃ k : Nat, p = a * k + b) ↔ (p - b).tmod a = 0 ∧ b ≤ p := by
  rw [← Int.dvd_iff_tmod_eq_zero]
  constructor
  · rintro ⟨k, rfl⟩
    have hk : 0 ≤ a * k := Int.mul_nonneg ha.le (Int.natCast_nonneg k)
    exact ⟨⟨k, by omega⟩, by omega⟩
  · rintro ⟨⟨k, hk⟩, hle⟩
    have hk0 : 0 ≤ k := by
      refine nonneg_of_mul_nonneg_right ?_ ha
      omega
    refine ⟨k.toNat, ?_⟩
    rw [Int.toNat_of_nonneg hk0, ← hk]
    omega

/-- The numbers `a*k + b`, for a negative `a`, are those up to `b` with the right remainder. -/
theorem exists_neg_mul_add_iff {a b p : Int} (ha : a < 0) :
    (∃ k : Nat, p = a * k + b) ↔ (b - p).tmod (-a) = 0 ∧ p ≤ b := by
  rw [← exists_mul_add_iff (by omega)]
  refine exists_congr fun k => ?_
  rw [Int.neg_mul]
  omega

/-- If `b` is not above `a`, a positive number with the remainder of `b` is not below `b`. -/
theorem le_of_tmod_eq_zero {a b p : Int} (hb : b ≤ a) (hp : 0 < p)
    (h : (p - b).tmod a = 0) : b ≤ p := by
  obtain ⟨k, hk⟩ := Int.dvd_iff_tmod_eq_zero.mpr h
  by_contra hlt
  have hk0 : k < 0 := by
    by_contra hk0
    have := Int.mul_nonneg (a := a) (b := k) (by omega) (by omega)
    omega
  nlinarith

section Terms

variable {index : Expr} {p : Nat} (hindex : index.tree.eval? doc context = some (.number p))

include hindex

theorem Formula.distance_eval? (b : Int) :
    (distance index b).tree.eval? doc context = some (.number (p - b)) := by
  unfold distance
  split
  · next hb => rw [hindex, hb, Int.sub_zero]
  · split
    · exact eval?_binary hindex (eval?_number b) rfl
    · refine eval?_binary hindex (eval?_number (-b)) ?_
      rw [Operator.toOp, Op.value?, Int.sub_eq_add_neg]

omit hindex in
theorem Formula.leaves_tests {e : Expr} {n modulus : Int}
    (he : e.tree.eval? doc context = some (.number n)) (hmodulus : modulus ≠ 0)
    (remainder : Int) :
    Tests doc context (leaves e modulus remainder).tree (n.tmod modulus = remainder) := by
  have hmod : (Expr.binary .mod e (.number modulus)).tree.eval? doc context =
      some (.number (n.tmod modulus)) := by
    refine eval?_binary he (eval?_number modulus) ?_
    rw [Operator.toOp, Op.value?, if_neg hmodulus]
  exact (Tests.of_boolean (eval?_binary hmod (eval?_number remainder) rfl)).congr beq_iff_eq

theorem Formula.linearTerms_testAll (hp : 0 < p) (a b : Int) :
    TestAll doc context (linearTerms a b index) (∃ k : Nat, (p : Int) = a * k + b) := by
  have hatLeast : Tests doc context (Expr.binary .atLeast index (.number b)).tree (b ≤ p) :=
    (Tests.of_boolean (eval?_binary hindex (eval?_number b) rfl)).congr decide_eq_true_iff
  have hatMost : Tests doc context (Expr.binary .atMost index (.number b)).tree (p ≤ b) :=
    (Tests.of_boolean (eval?_binary hindex (eval?_number b) rfl)).congr decide_eq_true_iff
  unfold linearTerms
  split
  · next ha =>
    refine .single ((Tests.of_boolean (eval?_binary hindex (eval?_number b) rfl)).congr ?_)
    simp [ha]
  · split
    · next ha =>
      rw [ha, exists_mul_add_iff Int.one_pos]
      split
      · exact .single (hatLeast.congr (by simp))
      · refine .single ((Tests.of_boolean (b := true) rfl).congr ?_)
        simp only [Int.tmod_one, true_and, true_iff]
        omega
    · split
      · next ha =>
        rw [exists_mul_add_iff (by omega)]
        have hleaves := leaves_tests (distance_eval? hindex b) (by omega : a ≠ 0) 0
        split
        · exact (TestAll.single hleaves).append (.single hatLeast)
        · refine .single (hleaves.congr ⟨fun h => ⟨h, ?_⟩, And.left⟩)
          exact le_of_tmod_eq_zero (by omega) (by omega) h
      · rw [exists_neg_mul_add_iff (by omega)]
        split
        · refine .single (constFalse_tests.congr ?_)
          simp only [false_iff, not_and]
          omega
        · split
          · next ha => exact .single (hatMost.congr (by simp [ha]))
          · have hminus : (Expr.group (.binary .minus (.number b) index)).tree.eval? doc context =
                some (.number (b - p)) :=
              eval?_binary (eval?_number b) hindex rfl
            have hleaves := leaves_tests hminus (by omega : -a ≠ 0) 0
            exact (TestAll.single hleaves).append (.single hatMost)

/-- The terms of a formula test whether it selects the position. -/
theorem Formula.terms_testAll (hp : 0 < p) (formula : Formula) :
    TestAll doc context (formula.terms index) (formula.Selects p) := by
  cases formula with
  | even =>
    refine .single ((leaves_tests hindex (by decide) 0).congr ?_)
    rw [Selects, coefficients, exists_mul_add_iff (by decide)]
    simp
  | odd =>
    refine .single ((leaves_tests hindex (by decide) 1).congr ?_)
    simp only [Selects, coefficients]
    rw [exists_mul_add_iff (by decide), Int.tmod_eq_emod_of_nonneg (by omega),
      Int.tmod_eq_emod_of_nonneg (by omega)]
    omega
  | linear a b => exact linearTerms_testAll hindex hp a.toInt b.toInt

end Terms

end Evaluation

end SelectorPath
