import SelectorPath.Proofs.Selector.WellFormed
import SelectorPath.Proofs.XPath.Parsing

/-!
Formulas as they are written, with integers for their numbers: nothing wraps around, since digits
for a number that has no 64 bits with its sign are no number at all. `Formula.read_start_iff` says
that the reader takes exactly such a text from the front of an input, and what it says otherwise.
-/

namespace SelectorPath

open Text XPath.Syntax

namespace Grammar

/-- ASCII digits, in which zeros may come first, and the number that they stand for. -/
structure DigitsText (s : List Char) (n : Nat) : Prop where
  ne_nil : s ≠ []
  ascii : ∀ c ∈ s, c.isDigit
  value : n = Nat.ofDigitChars 10 s 0
  bound : n ≤ 2 ^ 63 - 1

def withSign (negative : Bool) (n : Nat) : Int := if negative then -n else n

/-- Digits after a sign that may be left out. -/
def SignedText (s : List Char) (m : Int) : Prop :=
  ∃ sign digits negative n, s = sign ++ digits ∧ OptionalSign sign negative ∧
    DigitsText digits n ∧ m = withSign negative n

/-- What stands before `n`. -/
def CoefficientValue (s : List Char) (m : Int) : Prop :=
  SignedText s m ∨ ∃ negative, OptionalSign s negative ∧ m = withSign negative 1

/-- What stands after `n`. -/
def ConstantValue (s : List Char) (m : Int) : Prop :=
  (s = [] ∧ m = 0) ∨ ∃ v sign w digits negative n, s = v ++ sign ++ w ++ digits ∧ SpaceText v ∧
    SignText sign negative ∧ SpaceText w ∧ DigitsText digits n ∧ m = withSign negative n

/-- What stands in the parentheses of a formula. -/
def BodyValue (s : List Char) : Formula → Prop
  | .even => s.map Char.toLower = ['e', 'v', 'e', 'n']
  | .odd => s.map Char.toLower = ['o', 'd', 'd']
  | .linear a b => (a.toInt = 0 ∧ SignedText s b.toInt) ∨
      ∃ t n u, s = t ++ n :: u ∧ (n = 'n' ∨ n = 'N') ∧ CoefficientValue t a.toInt ∧
        ConstantValue u b.toInt

/-! ## Digits -/

theorem isNumeral_eq_isDigit (c : Char) : isNumeral c = c.isDigit := rfl

theorem ascii_of_digitsValue? {s : List Char} {m n : Nat} (h : digitsValue? m s = some n) :
    ∀ c ∈ s, c.isDigit := by
  induction s generalizing m with
  | nil => simp
  | cons c s ih =>
    simp only [digitsValue?, digitValue?, Option.bind_eq_some_iff, Option.ite_none_right_eq_some]
      at h
    obtain ⟨d, ⟨hc, -⟩, h⟩ := h
    refine List.forall_mem_cons.mpr ⟨?_, ih h⟩
    rw [← isNumeral_eq_isDigit, isNumeral]
    simpa using hc

theorem natural?_eq_some_iff {s : List Char} {n : Nat} :
    natural? s = some n ↔
      s ≠ [] ∧ (∀ c ∈ s, c.isDigit) ∧ n = Nat.ofDigitChars 10 s 0 := by
  cases s with
  | nil => simp [natural?]
  | cons c s =>
    constructor
    · intro h
      have hdigits := ascii_of_digitsValue? h
      refine ⟨List.cons_ne_nil c s, hdigits, Option.some.inj (h.symm.trans ?_)⟩
      exact XPath.digitsValue?_eq_ofDigitChars hdigits 0
    · rintro ⟨-, hdigits, rfl⟩
      exact XPath.digitsValue?_eq_ofDigitChars hdigits 0

theorem numberText_iff {s : List Char} {m : Int64} :
    NumberText s m ↔ ∃ n, DigitsText s n ∧ m = Int64.ofInt n := by
  constructor
  · rintro ⟨n, hn, hlt, rfl⟩
    obtain ⟨hne, hdigits, hvalue⟩ := natural?_eq_some_iff.mp hn
    exact ⟨n, ⟨hne, hdigits, hvalue, by omega⟩, rfl⟩
  · rintro ⟨n, h, rfl⟩
    exact ⟨n, natural?_eq_some_iff.mpr ⟨h.ne_nil, h.ascii, h.value⟩, by have := h.bound; omega, rfl⟩

/-- A 64-bit number with a sign stands for the integer with that sign. -/
theorem eq_signed_iff {m : Int64} {negative : Bool} {n : Nat} (h : n ≤ 2 ^ 63 - 1) :
    m = signed negative (Int64.ofInt n) ↔ m.toInt = withSign negative n := by
  rw [← Int64.toInt_inj, toInt_signed (by omega), withSign]

/-! ## Formulas -/

theorem signedText_iff {s : List Char} {m : Int64} :
    SignedText s m.toInt ↔ ∃ sign digits negative magnitude, s = sign ++ digits ∧
      OptionalSign sign negative ∧ NumberText digits magnitude ∧ m = signed negative magnitude := by
  simp only [SignedText, numberText_iff]
  constructor
  · rintro ⟨sign, digits, negative, n, rfl, hsign, hdigits, hm⟩
    exact ⟨sign, digits, negative, _, rfl, hsign, ⟨n, hdigits, rfl⟩,
      (eq_signed_iff hdigits.bound).mpr hm⟩
  · rintro ⟨sign, digits, negative, _, rfl, hsign, ⟨n, hdigits, rfl⟩, hm⟩
    exact ⟨sign, digits, negative, n, rfl, hsign, hdigits, (eq_signed_iff hdigits.bound).mp hm⟩

theorem coefficientText_iff {s : List Char} {a : Int64} :
    CoefficientText s a ↔ CoefficientValue s a.toInt := by
  have hone (negative : Bool) : a = signed negative 1 ↔ a.toInt = withSign negative 1 :=
    eq_signed_iff (n := 1) (by decide)
  rw [CoefficientValue, signedText_iff]
  constructor
  · rintro (⟨hsign⟩ | ⟨hsign, hdigits⟩)
    · exact .inr ⟨_, hsign, (hone _).mp rfl⟩
    · exact .inl ⟨_, _, _, _, rfl, hsign, hdigits, rfl⟩
  · rintro (⟨sign, digits, negative, magnitude, rfl, hsign, hdigits, rfl⟩ | ⟨negative, hsign, ha⟩)
    · exact .digits hsign hdigits
    · obtain rfl := (hone negative).mpr ha
      exact .sign hsign

theorem constantText_iff {s : List Char} {b : Int64} :
    ConstantText s b ↔ ConstantValue s b.toInt := by
  constructor
  · rintro (_ | ⟨hv, hsign, hw, hnumber⟩)
    · exact .inl ⟨rfl, rfl⟩
    · obtain ⟨n, hdigits, rfl⟩ := numberText_iff.mp hnumber
      exact .inr ⟨_, _, _, _, _, n, rfl, hv, hsign, hw, hdigits,
        (eq_signed_iff hdigits.bound).mp rfl⟩
  · rintro (⟨rfl, hb⟩ | ⟨v, sign, w, digits, negative, n, rfl, hv, hsign, hw, hdigits, hb⟩)
    · obtain rfl : b = 0 := Int64.toInt_inj.mp hb
      exact .absent
    · obtain rfl := (eq_signed_iff hdigits.bound).mpr hb
      exact .present hv hsign hw (numberText_iff.mpr ⟨n, hdigits, rfl⟩)

/-- The notation with 64-bit numbers is the one with integers. -/
theorem formulaBody_iff {s : List Char} {f : Formula} : FormulaBody s f ↔ BodyValue s f := by
  constructor
  · intro h
    cases h with
    | even hs => exact hs
    | odd hs => exact hs
    | position hsign hdigits =>
      exact .inl ⟨rfl, signedText_iff.mpr ⟨_, _, _, _, rfl, hsign, hdigits, rfl⟩⟩
    | linear ha hn hb =>
      refine .inr ?_
      rcases hn with rfl | rfl
      · exact ⟨_, 'n', _, by simp, .inl rfl, coefficientText_iff.mp ha, constantText_iff.mp hb⟩
      · exact ⟨_, 'N', _, by simp, .inr rfl, coefficientText_iff.mp ha, constantText_iff.mp hb⟩
  · intro h
    cases f with
    | even => exact .even h
    | odd => exact .odd h
    | linear a b =>
      rcases h with ⟨ha, hb⟩ | ⟨t, n, u, rfl, hn, ha, hb⟩
      · obtain rfl : a = 0 := Int64.toInt_inj.mp ha
        obtain ⟨sign, digits, negative, magnitude, rfl, hsign, hdigits, rfl⟩ :=
          signedText_iff.mp hb
        exact .position hsign hdigits
      · have hletter : TokenKind.n.IsText [n] := by
          rcases hn with rfl | rfl
          · exact .inl rfl
          · exact .inr rfl
        rw [List.append_cons]
        exact .linear (coefficientText_iff.mpr ha) hletter (constantText_iff.mpr hb)

end Grammar

/-! ## Errors -/

/-- An error only says what is expected at a place. -/
def FailsUnexpected {α : Type} (x : Except SelectorError α) : Prop :=
  ∀ e, x = .error e → ∃ position expected, e = .unexpected position expected

namespace FailsUnexpected

variable {α β : Type}

theorem ok (a : α) : FailsUnexpected (.ok a) := by
  intro e he
  exact absurd he (by simp)

theorem error (position : Nat) (expected : Expectation) :
    FailsUnexpected (.error (.unexpected position expected) : Except SelectorError α) := by
  rintro e ⟨⟩
  exact ⟨position, expected, rfl⟩

theorem bind {x : Except SelectorError α} {f : α → Except SelectorError β}
    (h : FailsUnexpected x) (hf : ∀ a, FailsUnexpected (f a)) : FailsUnexpected (x >>= f) := by
  cases x with
  | error e =>
    intro e' he
    obtain rfl : e = e' := Except.error.inj he
    exact h e rfl
  | ok a => exact hf a

theorem expect (lexicon : Lexicon) (kind : TokenKind) (expected : Expectation) (c : Cursor) :
    FailsUnexpected (lexicon.expect kind expected c) := by
  unfold Lexicon.expect
  split
  · exact ok _
  · exact error _ _

end FailsUnexpected

namespace Formula

open Grammar Lexicon

variable (lexicon : Lexicon)

theorem signedInteger_fails (digits : List Char) (negative : Bool) (c : Cursor) :
    FailsUnexpected (signedInteger digits negative c) := by
  unfold signedInteger
  split
  · exact .error _ _
  · exact .ok _

theorem readConstant_fails (coefficient : Int64) (c : Cursor) :
    FailsUnexpected (readConstant lexicon coefficient c) := by
  unfold readConstant
  split
  · exact .ok _
  · dsimp only
    split
    · exact .error _ _
    · exact (signedInteger_fails _ _ _).bind fun _ => .ok _

theorem readLinear_fails (c : Cursor) : FailsUnexpected (readLinear lexicon c) := by
  unfold readLinear
  dsimp only
  split
  · exact .error _ _
  · exact (signedInteger_fails _ _ _).bind fun _ => .ok _
  · exact readConstant_fails lexicon _ _
  · exact (signedInteger_fails _ _ _).bind fun a => readConstant_fails lexicon a _

theorem readBody_fails (c : Cursor) : FailsUnexpected (readBody lexicon c) := by
  unfold readBody
  split
  · exact .ok _
  · split
    · exact .ok _
    · exact readLinear_fails lexicon c

/-- Whatever the tokens are, a text that is no formula is reported as what is expected. -/
theorem read_fails (c : Cursor) : FailsUnexpected (read lexicon c) := by
  refine (FailsUnexpected.expect lexicon _ _ _).bind fun _ => ?_
  refine (readBody_fails lexicon _).bind fun _ => ?_
  exact (FailsUnexpected.expect lexicon _ _ _).bind fun _ => .ok _

/-- At the front of an input, a formula is read up to a place if the text up to this place is a
formula in parentheses; otherwise the error says what is expected. -/
theorem read_start_iff (input : String) :
    (∀ f k rest, read standard (.start input) = .ok (f, ⟨k, rest⟩) ↔
      ∃ v body w, input.toList = '(' :: (v ++ body ++ w ++ [')']) ++ rest ∧
        k = byteLength ('(' :: (v ++ body ++ w ++ [')'])) ∧
        SpaceText v ∧ BodyValue body f ∧ SpaceText w) ∧
    ((∃ f after, read standard (.start input) = .ok (f, after)) ∨
      ∃ position expected,
        read standard (.start input) = .error (.unexpected position expected)) := by
  constructor
  · intro f k rest
    rw [read_iff]
    constructor
    · rintro ⟨text, htakes, v, body, w, rfl, hv, hbody, hw⟩
      refine ⟨v, body, w, htakes.rest, ?_, hv, formulaBody_iff.mp hbody, hw⟩
      simpa [Cursor.start] using htakes.offset
    · rintro ⟨v, body, w, hinput, rfl, hv, hbody, hw⟩
      refine ⟨_, ⟨hinput, ?_⟩, v, body, w, rfl, hv, formulaBody_iff.mpr hbody, hw⟩
      simp [Cursor.start]
  · cases hread : read standard (.start input) with
    | ok found => exact .inl ⟨found.1, found.2, rfl⟩
    | error e =>
      obtain ⟨position, expected, rfl⟩ := read_fails standard _ e hread
      exact .inr ⟨position, expected, rfl⟩

end Formula

end SelectorPath
