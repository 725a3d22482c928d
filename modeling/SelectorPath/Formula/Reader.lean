import SelectorPath.Formula.Basic
import SelectorPath.Reader

/-!
Reading a formula in parentheses: `even`, `odd`, a position, or a coefficient with `n` and
an optional constant after a sign.
-/

namespace SelectorPath.Formula

/-- The number that digits and a sign stand for. -/
def signedInteger (digits : List Char) (negative : Bool) (c : Cursor) :
    Except SelectorError Int64 :=
  match Text.int64? digits with
  | none => .error (.unexpected c.offset .integer)
  | some magnitude => .ok (if negative then -magnitude else magnitude)

/-- The constant after `n`. White space that no sign follows is left in place. -/
def readConstant (lexicon : Lexicon) (coefficient : Int64) (c : Cursor) :
    Except SelectorError (Formula × Cursor) :=
  match lexicon.token .sign (lexicon.skip .spaces c) with
  | none => .ok (.linear coefficient 0, c)
  | some (sign, after) =>
    let c := lexicon.skip .spaces after
    match lexicon.token .number c with
    | none => .error (.unexpected c.offset .constant)
    | some (digits, after) => do
      let constant ← signedInteger digits (sign == ['-']) c
      return (.linear coefficient constant, after)

/-- Whether a minus stands at a place, and the place after the sign if there is one. -/
def readSign (lexicon : Lexicon) (c : Cursor) : Bool × Cursor :=
  match lexicon.token .sign c with
  | some (sign, after) => (sign == ['-'], after)
  | none => (false, c)

/-- The digits at a place, if there are any, and the place after them. -/
def readDigits (lexicon : Lexicon) (c : Cursor) : Option (List Char) × Cursor :=
  match lexicon.token .number c with
  | some (digits, after) => (some digits, after)
  | none => (none, c)

/-- A formula of numbers. Before `n`, no digits mean a coefficient of one. -/
def readLinear (lexicon : Lexicon) (c : Cursor) : Except SelectorError (Formula × Cursor) :=
  let (negative, afterSign) := readSign lexicon c
  let (digits, afterDigits) := readDigits lexicon afterSign
  match lexicon.token .n afterDigits, digits with
  | none, none => .error (.unexpected afterSign.offset .formula)
  | none, some digits => do
    let constant ← signedInteger digits negative afterSign
    return (.linear 0 constant, afterDigits)
  | some (_, afterN), none => readConstant lexicon (if negative then -1 else 1) afterN
  | some (_, afterN), some digits => do
    let coefficient ← signedInteger digits negative afterSign
    readConstant lexicon coefficient afterN

/-- A formula without its parentheses. -/
def readBody (lexicon : Lexicon) (c : Cursor) : Except SelectorError (Formula × Cursor) :=
  match lexicon.token .even c with
  | some (_, after) => .ok (.even, after)
  | none =>
    match lexicon.token .odd c with
    | some (_, after) => .ok (.odd, after)
    | none => readLinear lexicon c

/-- A formula in parentheses. -/
def read (lexicon : Lexicon) (c : Cursor) : Except SelectorError (Formula × Cursor) := do
  let c ← lexicon.expect .leftParen .formulaOpening c
  let (formula, c) ← readBody lexicon (lexicon.skip .spaces c)
  let c ← lexicon.expect .rightParen .formulaClosing (lexicon.skip .spaces c)
  return (formula, c)

end SelectorPath.Formula
