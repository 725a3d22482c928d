import SelectorPath.Proofs.Compile.Formulas

/-!
The direct test of a position (`Formula.selects`), which works on 64-bit numbers. It is the test
for `a*k + b` wherever the distance of the position from `b` has 64 bits, and elsewhere it selects
nothing; so it differs from the texts of formulas at those positions alone that are too far from
`b` and are selected (`Formula.selects_iff_reaches`).
-/

namespace SelectorPath.Formula

open XPath Syntax

/-! ## Checked operations -/

/-- A number has 64 bits with its sign. -/
def Fits64 (n : Int) : Prop := -2 ^ 63 ≤ n ∧ n < 2 ^ 63

theorem fits64_toInt (x : Int64) : Fits64 x.toInt := ⟨x.le_toInt, x.toInt_lt⟩

/-- A checked difference is the difference of the numbers. -/
theorem checkedSub_eq_some_iff {x y d : Int64} :
    checkedSub x y = some d ↔ d.toInt = x.toInt - y.toInt := by
  have hmin : Int64.minValue.toInt = -2 ^ 63 := rfl
  have hmax : Int64.maxValue.toInt = 2 ^ 63 - 1 := rfl
  have hsub : Fits64 (x.toInt - y.toInt) → (x - y).toInt = x.toInt - y.toInt := by
    rintro ⟨hle, hlt⟩
    rw [Int64.toInt_sub]
    exact Int.bmod_eq_of_le (by omega) (by omega)
  simp only [checkedSub, hmin, hmax, Option.ite_none_right_eq_some, Option.some.injEq]
  constructor
  · rintro ⟨hfits, rfl⟩
    exact hsub ⟨hfits.1, by omega⟩
  · intro hd
    have hfits : Fits64 (x.toInt - y.toInt) := hd ▸ fits64_toInt d
    refine ⟨⟨hfits.1, by have := hfits.2; omega⟩, ?_⟩
    rw [← Int64.toInt_inj, hsub hfits, hd]

/-- There is a checked difference if the difference has 64 bits. -/
theorem checkedSub_eq_none_iff {x y : Int64} :
    checkedSub x y = none ↔ ¬Fits64 (x.toInt - y.toInt) := by
  constructor
  · rintro hnone ⟨hle, hlt⟩
    have hd := Int64.toInt_ofInt_of_le hle hlt
    rw [checkedSub_eq_some_iff.mpr hd] at hnone
    exact Option.some_ne_none _ hnone
  · intro hfits
    cases hd : checkedSub x y with
    | none => rfl
    | some d => exact absurd (checkedSub_eq_some_iff.mp hd ▸ fits64_toInt d) hfits

/-- A checked remainder is the remainder of the numbers. -/
theorem checkedRem_eq_some_zero_iff {x y : Int64} (h : (checkedRem x y).isSome) :
    checkedRem x y = some 0 ↔ y.toInt ∣ x.toInt := by
  unfold checkedRem at h ⊢
  split at h
  · simp at h
  · next hne =>
    have hzero : (0 : Int64).toInt = 0 := rfl
    rw [if_neg hne, Option.some.injEq, ← Int64.toInt_inj, Int64.toInt_mod, hzero,
      Int.dvd_iff_tmod_eq_zero]

/-- The distance of a positive position is not the least number, so there is a remainder. -/
theorem checkedRem_isSome {p b delta a : Int64} (hp : 1 ≤ p.toInt) (ha : a ≠ 0)
    (hdelta : checkedSub p b = some delta) : (checkedRem delta a).isSome := by
  have hmin : Int64.minValue.toInt = -2 ^ 63 := rfl
  have hd := checkedSub_eq_some_iff.mp hdelta
  have hb := b.toInt_lt
  have hne : delta ≠ Int64.minValue := by
    rintro rfl
    omega
  simp [checkedRem, ha, hne]

/-! ## Positions -/

/-- The numbers `a*k + b` are those whose distance from `b` is a multiple of `a` and lies on the
same side of zero as `a`. -/
theorem exists_mul_add_iff_dvd {a b p : Int} (ha : a ≠ 0) :
    (∃ k : Nat, p = a * k + b) ↔ a ∣ p - b ∧ (p - b = 0 ∨ (0 < p - b ↔ 0 < a)) := by
  rcases Int.lt_or_gt_of_ne ha with ha | ha
  · rw [exists_neg_mul_add_iff ha, ← Int.dvd_iff_tmod_eq_zero, neg_dvd, dvd_sub_comm]
    exact and_congr_right fun _ => by omega
  · rw [exists_mul_add_iff ha, ← Int.dvd_iff_tmod_eq_zero]
    exact and_congr_right fun _ => by omega

/-- The numbers `2*k + r`, for a remainder `r`, are those with this remainder. -/
theorem exists_two_mul_add_iff {n r : Int} (hn : 1 ≤ n) (hr : r = 0 ∨ r = 1) :
    (∃ k : Nat, n = 2 * k + r) ↔ n.tmod 2 = r := by
  rw [exists_mul_add_iff (by decide), Int.tmod_eq_emod_of_nonneg (by omega),
    Int.tmod_eq_emod_of_nonneg (by omega)]
  omega

section Selects

variable {p : Int64}

theorem lt_one_iff : p < 1 ↔ ¬1 ≤ p.toInt := by
  rw [Int64.lt_iff_toInt_lt, Int.not_le]
  rfl

theorem selects_eq_false (formula : Formula) (hp : ¬1 ≤ p.toInt) : formula.selects p = false :=
  if_pos (lt_one_iff.mpr hp)

/-- A formula with a coefficient selects its positions that are near enough to its constant. -/
theorem selects_linear_iff {a b : Int64} (hp : 1 ≤ p.toInt) (ha : a ≠ 0) :
    (linear a b).selects p = true ↔
      (linear a b).Selects p.toInt.toNat ∧ Fits64 (p.toInt - b.toInt) := by
  have hlt : ¬p < 1 := fun h => lt_one_iff.mp h hp
  have hzero : (0 : Int64).toInt = 0 := rfl
  have ha' : a.toInt ≠ 0 := fun h => ha (Int64.toInt_inj.mp (h.trans hzero.symm))
  simp only [selects, if_neg hlt, if_neg ha, Selects, coefficients]
  rw [Int.toNat_of_nonneg (by omega), exists_mul_add_iff_dvd ha']
  cases hdelta : checkedSub p b with
  | none => simp [checkedSub_eq_none_iff.mp hdelta]
  | some delta =>
    have hd := checkedSub_eq_some_iff.mp hdelta
    have hrem := checkedRem_eq_some_zero_iff (checkedRem_isSome hp ha hdelta)
    have hpositive (x : Int64) : 0 < x ↔ 0 < x.toInt := Int64.lt_iff_toInt_lt
    have hdeltaZero : delta = 0 ↔ delta.toInt = 0 := by rw [← hzero, Int64.toInt_inj]
    rw [← hd, and_iff_left (fits64_toInt delta)]
    simp [hrem, hpositive, hdeltaZero]

/-- The distance of a position from the constant, if it is looked at, has 64 bits. -/
def Reaches (p : Int64) : Formula → Prop
  | .linear a b => a ≠ 0 → Fits64 (p.toInt - b.toInt)
  | _ => True

theorem selects_iff (formula : Formula) (hp : 1 ≤ p.toInt) :
    formula.selects p = true ↔ formula.Selects p.toInt.toNat ∧ formula.Reaches p := by
  have hlt : ¬p < 1 := fun h => lt_one_iff.mp h hp
  have hnat : (p.toInt.toNat : Int) = p.toInt := Int.toNat_of_nonneg (by omega)
  have hparity (r : Int64) (hr : r.toInt = 0 ∨ r.toInt = 1) :
      p % 2 = r ↔ ∃ k : Nat, p.toInt = 2 * k + r.toInt := by
    rw [exists_two_mul_add_iff hp hr, ← Int64.toInt_inj, Int64.toInt_mod]
    rfl
  cases formula with
  | odd =>
    simp only [selects, if_neg hlt, decide_eq_true_eq, Selects, coefficients, hnat, Reaches,
      and_true]
    exact hparity 1 (.inr rfl)
  | even =>
    simp only [selects, if_neg hlt, decide_eq_true_eq, Selects, coefficients, hnat, Reaches,
      and_true]
    exact hparity 0 (.inl rfl)
  | linear a b =>
    by_cases ha : a = 0
    · have hzero : a.toInt = 0 := by rw [ha]; rfl
      simp only [selects, if_neg hlt, if_pos ha, decide_eq_true_eq, Selects, coefficients, hnat,
        hzero, zero_mul, zero_add, exists_const, Int64.toInt_inj, Reaches]
      simp [ha]
    · rw [selects_linear_iff hp ha]
      simp [Reaches, ha]

/-- A position that is selected is too far from the constant on one side only. -/
theorem not_reaches_iff {formula : Formula} (hp : 1 ≤ p.toInt)
    (h : formula.Selects p.toInt.toNat) :
    ¬formula.Reaches p ↔ 2 ^ 63 - 1 < p.toInt - formula.coefficients.2 := by
  have hlt := p.toInt_lt
  cases formula with
  | odd | even =>
    simp only [Reaches, not_true_eq_false, coefficients, false_iff]
    omega
  | linear a b =>
    have hb := b.toInt_lt
    by_cases ha : a = 0
    · -- Then the position is the constant.
      have hzero : a.toInt = 0 := by rw [ha]; rfl
      obtain ⟨k, hk⟩ := h
      simp only [coefficients, hzero, zero_mul, zero_add] at hk
      simp only [Reaches, ha, ne_eq, not_true_eq_false, false_implies, coefficients, false_iff]
      omega
    · simp only [Reaches, ne_eq, ha, not_false_eq_true, forall_const, Fits64, coefficients]
      omega

/-- Where the direct test and a test of all positions differ. -/
theorem selects_ne_iff {formula : Formula} (hp : 1 ≤ p.toInt) {value : Bool}
    (hvalue : value = true ↔ formula.Selects p.toInt.toNat) :
    formula.selects p ≠ value ↔
      2 ^ 63 - 1 < p.toInt - formula.coefficients.2 ∧ formula.Selects p.toInt.toNat := by
  have hselects := selects_iff formula hp
  by_cases h : formula.Selects p.toInt.toNat
  · rw [hvalue.mpr h, and_iff_left h, ← not_reaches_iff hp h, ne_eq, hselects, and_iff_right h]
  · have hfalse : formula.selects p = false :=
      Bool.eq_false_iff.mpr fun htrue => h (hselects.mp htrue).1
    rw [hfalse, Bool.eq_false_iff.mpr fun htrue => h (hvalue.mp htrue)]
    exact iff_of_false (fun hne => hne rfl) fun hfar => h hfar.2

end Selects

/-! ## The direct test and the texts -/

/-- The direct test selects the positions `a*k + b` from 1 on whose distance from `b`, if it is
looked at, has 64 bits; there is always a remainder to look at. It differs from the text of the
formula, with an operand for the position, where this distance is too great and the formula selects
the position. -/
theorem selects_iff_reaches (formula : Formula) (p : Int64) :
    (formula.selects p = true ↔ 1 ≤ p.toInt ∧
      (∃ k : Int, 0 ≤ k ∧ p.toInt = formula.coefficients.1 * k + formula.coefficients.2) ∧
      formula.Reaches p) ∧
    (∀ a b delta, formula = .linear a b → a ≠ 0 → 1 ≤ p.toInt → checkedSub p b = some delta →
      (checkedRem delta a).isSome) ∧
    ∀ (doc : Document) (context : Context) (index : Expr),
      index.StandsFor doc context p.toInt → 1 ≤ p.toInt →
      ∃ tree value, Tree.ofText? (formula.predicate index.render) = some tree ∧
        tree.eval? doc context = some (.boolean value) ∧
        (formula.selects p ≠ value ↔ 2 ^ 63 - 1 < p.toInt - formula.coefficients.2 ∧
          ∃ k : Int, 0 ≤ k ∧ p.toInt = formula.coefficients.1 * k + formula.coefficients.2) := by
  refine ⟨?_, fun a b delta _ ha hp => checkedRem_isSome hp ha, ?_⟩
  · by_cases hp : 1 ≤ p.toInt
    · rw [selects_iff formula hp, selects_toNat_iff hp, and_iff_right hp]
    · simp [selects_eq_false formula hp, hp]
  · intro doc context index hindex hp
    obtain ⟨tree, value, hread, heval, hvalue⟩ := formula.exists_predicate_value hindex hp
    refine ⟨tree, value, hread, heval, ?_⟩
    rw [← selects_toNat_iff hp]
    exact selects_ne_iff hp hvalue

/-- The greatest position is selected by `2n-1`, and the text of the formula says so; for the
direct test it lies too far from -1. -/
theorem selects_iff_reaches_greatest :
    let formula : Formula := .linear 2 (-1)
    let doc : Document := ⟨.mk "r" ∅ []⟩
    let context : Context := ⟨.root, 9223372036854775807, 9223372036854775807⟩
    formula.selects Int64.maxValue = false ∧
      ∃ tree, Tree.ofText? (formula.predicate "position()") = some tree ∧
        tree.eval? doc context = some (.boolean true) := by
  intro formula doc context
  have hselects : formula.selects Int64.maxValue = false := by decide
  have hshows : Position.exact.Shows doc context 9223372036854775807 1 :=
    Position.exact_shows (by decide) rfl rfl
  obtain ⟨-, -, htext⟩ := selects_iff_reaches formula Int64.maxValue
  obtain ⟨tree, value, htree, hvalue, hdiffer⟩ :=
    htext doc context Position.exact.index (hshows.standsFor trivial) (by decide)
  have hne : formula.selects Int64.maxValue ≠ value :=
    hdiffer.mpr ⟨by decide, 4611686018427387904, by decide, by decide⟩
  rw [hselects] at hne
  have htrue : value = true := by simpa using hne.symm
  exact ⟨hselects, tree, htree, htrue ▸ hvalue⟩

end SelectorPath.Formula
