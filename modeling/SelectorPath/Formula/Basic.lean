/-!
Formulas `an+b`: the positions `a*k + b` for the integers `k ≥ 0`, of which the first
position is 1. Coefficient and constant are 64-bit numbers.
-/

namespace SelectorPath

inductive Formula where
  | odd
  | even
  | linear (coefficient constant : Int64)
  deriving DecidableEq, Repr

namespace Formula

/-- The difference, if it fits in 64 bits. -/
def checkedSub (x y : Int64) : Option Int64 :=
  let d := x.toInt - y.toInt
  if Int64.minValue.toInt ≤ d ∧ d ≤ Int64.maxValue.toInt then some (x - y) else none

/-- The remainder with the sign of the dividend, if there is one and the quotient fits in
64 bits. -/
def checkedRem (x y : Int64) : Option Int64 :=
  if y = 0 ∨ (x = Int64.minValue ∧ y = -1) then none else some (x % y)

/-- Whether a formula selects a position. A position whose distance from the constant does
not fit in 64 bits is not selected. -/
def selects (formula : Formula) (position : Int64) : Bool :=
  if position < 1 then false
  else match formula with
    | .odd => position % 2 = 1
    | .even => position % 2 = 0
    | .linear coefficient constant =>
      if coefficient = 0 then position = constant
      else match checkedSub position constant with
        | none => false
        | some delta =>
          checkedRem delta coefficient = some 0 &&
            (delta = 0 || decide (0 < delta) == decide (0 < coefficient))

end Formula

end SelectorPath
