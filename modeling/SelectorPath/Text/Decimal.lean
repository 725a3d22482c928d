/-!
Numbers in decimal notation. Only the ten ASCII digits are read; a sign and the bounds of
the number are the business of the notation around the digits.
-/

namespace SelectorPath.Text

/-- The value of an ASCII digit. -/
def digitValue? (c : Char) : Option Nat :=
  if '0' ≤ c ∧ c ≤ '9' then some (c.toNat - '0'.toNat) else none

/-- The value of digits that follow digits of value `n`. -/
def digitsValue? (n : Nat) : List Char → Option Nat
  | [] => some n
  | c :: rest => (digitValue? c).bind fun d => digitsValue? (n * 10 + d) rest

/-- The value of one or more digits. -/
def natural? : List Char → Option Nat
  | [] => none
  | digits => digitsValue? 0 digits

/-- The value of one or more digits with an optional plus sign, if it is at most `limit`. -/
def naturalUpTo? (limit : Nat) (text : List Char) : Option Nat := do
  let n ← natural? (match text with | '+' :: digits => digits | digits => digits)
  if n ≤ limit then some n else none

/-- The value of one or more digits with an optional sign, if it fits in 64 bits. -/
def int64? (text : List Char) : Option Int64 := do
  let n : Int ← match text with
    | '-' :: digits => (natural? digits).map fun n => -(n : Int)
    | '+' :: digits => (natural? digits).map Int.ofNat
    | digits => (natural? digits).map Int.ofNat
  if Int64.minValue.toInt ≤ n ∧ n ≤ Int64.maxValue.toInt then some (Int64.ofInt n) else none

end SelectorPath.Text
