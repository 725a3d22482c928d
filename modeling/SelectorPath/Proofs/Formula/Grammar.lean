import SelectorPath.Formula.Reader
import SelectorPath.Proofs.Token.Place

/-!
The notation of formulas. `FormulaText` relates a text in parentheses to the formula that it
stands for, and `Formula.read_iff` says that the reader takes exactly such texts, whatever
stands after them.
-/

namespace SelectorPath

open Text

/-- What a computation gives if its second part succeeds on what the first part gives. -/
theorem bind_eq_ok_iff {ε α β : Type} {x : Except ε α} {f : α → Except ε β} {b : β} :
    (x >>= f) = .ok b ↔ ∃ a, x = .ok a ∧ f a = .ok b := by
  cases x with
  | error e => simp [bind, Except.bind]
  | ok a => simp [bind, Except.bind]

theorem map_eq_ok_iff {ε α β : Type} {x : Except ε α} {f : α → β} {b : β} :
    x.map f = .ok b ↔ ∃ a, x = .ok a ∧ f a = b := by
  cases x with
  | error e => simp [Except.map]
  | ok a => simp [Except.map]

namespace Grammar

/-- White space, which may be left out. -/
def SpaceText (s : List Char) : Prop := ∀ c ∈ s, isSpace c

/-- Digits for a number that has 64 bits with its sign. -/
def NumberText (s : List Char) (magnitude : Int64) : Prop :=
  ∃ n, natural? s = some n ∧ n < 2 ^ 63 ∧ magnitude = Int64.ofInt n

/-- A sign that must be there, and whether it is the minus. -/
def SignText (s : List Char) (negative : Bool) : Prop :=
  (s = ['+'] ∧ negative = false) ∨ (s = ['-'] ∧ negative = true)

/-- A sign that may be left out. -/
def OptionalSign (s : List Char) (negative : Bool) : Prop :=
  (s = [] ∧ negative = false) ∨ SignText s negative

def signed (negative : Bool) (magnitude : Int64) : Int64 :=
  if negative then -magnitude else magnitude

/-- What stands before `n`. Without digits it means one. -/
inductive CoefficientText : List Char → Int64 → Prop
  | sign {s : List Char} {negative : Bool} :
      OptionalSign s negative → CoefficientText s (signed negative 1)
  | digits {s t : List Char} {negative : Bool} {magnitude : Int64} :
      OptionalSign s negative → NumberText t magnitude →
      CoefficientText (s ++ t) (signed negative magnitude)

/-- What stands after `n`. Nothing means zero. -/
inductive ConstantText : List Char → Int64 → Prop
  | absent : ConstantText [] 0
  | present {v sign w t : List Char} {negative : Bool} {magnitude : Int64} :
      SpaceText v → SignText sign negative → SpaceText w → NumberText t magnitude →
      ConstantText (v ++ sign ++ w ++ t) (signed negative magnitude)

/-- What stands in the parentheses of a formula, white space at the ends left out. -/
inductive FormulaBody : List Char → Formula → Prop
  | even {s : List Char} : s.map Char.toLower = "even".toList → FormulaBody s .even
  | odd {s : List Char} : s.map Char.toLower = "odd".toList → FormulaBody s .odd
  | position {s t : List Char} {negative : Bool} {magnitude : Int64} :
      OptionalSign s negative → NumberText t magnitude →
      FormulaBody (s ++ t) (.linear 0 (signed negative magnitude))
  | linear {s n t : List Char} {a b : Int64} :
      CoefficientText s a → TokenKind.n.IsText n → ConstantText t b →
      FormulaBody (s ++ n ++ t) (.linear a b)

/-- A formula in parentheses. -/
def FormulaText (s : List Char) (formula : Formula) : Prop :=
  ∃ v body w, s = '(' :: (v ++ body ++ w ++ [')']) ∧ SpaceText v ∧ FormulaBody body formula ∧
    SpaceText w

end Grammar

/-! ## Numbers -/

namespace Text

theorem isDigit_of_digitValue? {c : Char} {d : Nat} (h : digitValue? c = some d) : isDigit c := by
  simp only [digitValue?, Option.ite_none_right_eq_some] at h
  exact inRanges_of_covers (0x30, 0x39) (by decide +kernel) h.1.1 h.1.2

theorem isDigit_of_digitsValue? {s : List Char} {m n : Nat} (h : digitsValue? m s = some n) :
    ∀ c ∈ s, isDigit c := by
  induction s generalizing m with
  | nil => simp
  | cons c s ih =>
    simp only [digitsValue?, Option.bind_eq_some_iff] at h
    obtain ⟨d, hd, h⟩ := h
    exact List.forall_mem_cons.mpr ⟨isDigit_of_digitValue? hd, ih h⟩

/-- Digits of a number are a token. -/
theorem headed_of_natural? {s : List Char} {n : Nat} (h : natural? s = some n) :
    Headed isDigit isDigit s := by
  cases s with
  | nil => simp [natural?] at h
  | cons c s => exact Lexicon.headed_of_all (isDigit_of_digitsValue? h) (by simp)

/-- A number token has no sign, so that its value is that of its digits. -/
theorem int64?_eq_some_iff {s : List Char} (hs : Headed isDigit isDigit s) (m : Int64) :
    int64? s = some m ↔ Grammar.NumberText s m := by
  have hmin : Int64.minValue.toInt = -2 ^ 63 := rfl
  have hmax : Int64.maxValue.toInt = 2 ^ 63 - 1 := rfl
  obtain ⟨c, t, rfl, hc, -⟩ := hs
  have h1 : c ≠ '-' := by rintro rfl; exact absurd hc (by decide)
  have h2 : c ≠ '+' := by rintro rfl; exact absurd hc (by decide)
  have hi : int64? (c :: t) = (do
      let n ← (natural? (c :: t)).map Int.ofNat
      if Int64.minValue.toInt ≤ n ∧ n ≤ Int64.maxValue.toInt then some (Int64.ofInt n)
      else none) := by
    unfold int64?
    split
    · next h => exact absurd (List.cons.inj h).1 h1
    · next h => exact absurd (List.cons.inj h).1 h2
    · rfl
  rw [hi, hmin, hmax]
  cases hn : natural? (c :: t) with
  | none => simp [Grammar.NumberText, hn]
  | some n =>
    simp only [Option.map_some, Option.bind_eq_bind, Option.bind_some, Int.ofNat_eq_natCast,
      Option.ite_none_right_eq_some, Option.some.injEq, Grammar.NumberText, hn]
    constructor
    · rintro ⟨hle, rfl⟩
      exact ⟨n, rfl, by omega, rfl⟩
    · rintro ⟨k, rfl, hk, rfl⟩
      exact ⟨by omega, rfl⟩

end Text

/-! ## What the reader takes -/

namespace Formula

open Grammar Lexicon

theorem signText_of_isText {s : List Char} (h : TokenKind.sign.IsText s) :
    SignText s (s == ['-']) := by
  rcases h with rfl | rfl
  · exact .inr ⟨rfl, rfl⟩
  · exact .inl ⟨rfl, rfl⟩

theorem signedInteger_eq_ok_iff {s : List Char} (hs : Headed isDigit isDigit s) {negative : Bool}
    {c : Cursor} {m : Int64} : signedInteger s negative c = .ok m ↔
      ∃ magnitude, NumberText s magnitude ∧ m = signed negative magnitude := by
  unfold signedInteger
  split
  · next h =>
    simp only [reduceCtorEq, false_iff]
    rintro ⟨magnitude, hm, -⟩
    simp [(int64?_eq_some_iff hs magnitude).mpr hm] at h
  · next magnitude h =>
    have hm := (int64?_eq_some_iff hs magnitude).mp h
    constructor
    · intro he
      exact ⟨magnitude, hm, (Except.ok.inj he).symm⟩
    · rintro ⟨magnitude', hm', rfl⟩
      have := (int64?_eq_some_iff hs magnitude').mpr hm'
      rw [h, Option.some.injEq] at this
      rw [this, signed]

theorem readConstant_sound {a : Int64} {c after : Cursor} {f : Formula}
    (h : readConstant standard a c = .ok (f, after)) :
    ∃ text b, c.Takes text after ∧ ConstantText text b ∧ f = .linear a b := by
  unfold readConstant at h
  obtain ⟨v, hv, htv, -⟩ := skip_spaces_iff.mp (rfl : standard.skip .spaces c = _)
  split at h
  · simp only [Except.ok.injEq, Prod.mk.injEq] at h
    obtain ⟨rfl, rfl⟩ := h
    exact ⟨[], 0, .refl c, .absent, rfl⟩
  · next sign d hsign =>
    obtain ⟨hs, hts, -⟩ := token_iff.mp hsign
    obtain ⟨w, hw, htw, -⟩ := skip_spaces_iff.mp (rfl : standard.skip .spaces d = _)
    dsimp only at h
    split at h
    · simp at h
    · next digits e hdigits =>
      obtain ⟨hd, htd, -⟩ := token_iff.mp hdigits
      obtain ⟨m, hm, h⟩ := bind_eq_ok_iff.mp h
      simp only [pure, Except.pure, Except.ok.injEq, Prod.mk.injEq] at h
      obtain ⟨rfl, rfl⟩ := h
      obtain ⟨magnitude, hn, rfl⟩ := (signedInteger_eq_ok_iff hd).mp hm
      exact ⟨_, _, ((htv.trans hts).trans htw).trans htd,
        .present hv (signText_of_isText hs) hw hn, rfl⟩

theorem readSign_sound {c after : Cursor} {negative : Bool}
    (h : readSign standard c = (negative, after)) :
    ∃ s, OptionalSign s negative ∧ c.Takes s after := by
  unfold readSign at h
  split at h
  · next sign d hs =>
    obtain ⟨hs, ht, -⟩ := token_iff.mp hs
    simp only [Prod.mk.injEq] at h
    obtain ⟨rfl, rfl⟩ := h
    exact ⟨sign, .inr (signText_of_isText hs), ht⟩
  · simp only [Prod.mk.injEq] at h
    obtain ⟨rfl, rfl⟩ := h
    exact ⟨[], .inl ⟨rfl, rfl⟩, .refl c⟩

theorem readDigits_sound {c after : Cursor} {digits : Option (List Char)}
    (h : readDigits standard c = (digits, after)) :
    digits = none ∧ after = c ∨
      ∃ s, digits = some s ∧ Headed isDigit isDigit s ∧ c.Takes s after := by
  unfold readDigits at h
  split at h
  · next s d hs =>
    obtain ⟨hs, ht, -⟩ := token_iff.mp hs
    simp only [Prod.mk.injEq] at h
    obtain ⟨rfl, rfl⟩ := h
    exact .inr ⟨s, rfl, hs, ht⟩
  · simp only [Prod.mk.injEq] at h
    obtain ⟨rfl, rfl⟩ := h
    exact .inl ⟨rfl, rfl⟩

theorem readLinear_sound {c after : Cursor} {f : Formula}
    (h : readLinear standard c = .ok (f, after)) :
    ∃ text, c.Takes text after ∧ FormulaBody text f := by
  obtain ⟨⟨negative, afterSign⟩, hsign⟩ : ∃ r, readSign standard c = r := ⟨_, rfl⟩
  obtain ⟨⟨digits, afterDigits⟩, hdigits⟩ : ∃ r, readDigits standard afterSign = r := ⟨_, rfl⟩
  obtain ⟨s, hs, hts⟩ := readSign_sound hsign
  simp only [readLinear, hsign, hdigits] at h
  rcases readDigits_sound hdigits with ⟨rfl, rfl⟩ | ⟨t, rfl, ht, htt⟩
  · split at h
    · simp at h
    · next he => simp at he
    · next n afterN hn _ =>
      obtain ⟨hn, htn, -⟩ := token_iff.mp hn
      obtain ⟨u, b, htu, hb, rfl⟩ := readConstant_sound h
      exact ⟨_, (hts.trans htn).trans htu, .linear (.sign hs) hn hb⟩
    · next he => simp at he
  · split at h
    · simp at h
    · next he =>
      cases he
      obtain ⟨m, hm, h⟩ := bind_eq_ok_iff.mp h
      simp only [pure, Except.pure, Except.ok.injEq, Prod.mk.injEq] at h
      obtain ⟨rfl, rfl⟩ := h
      obtain ⟨magnitude, hmag, rfl⟩ := (signedInteger_eq_ok_iff ht).mp hm
      exact ⟨_, hts.trans htt, .position hs hmag⟩
    · next he => simp at he
    · next n afterN _ hn he =>
      cases he
      obtain ⟨hn, htn, -⟩ := token_iff.mp hn
      obtain ⟨m, hm, h⟩ := bind_eq_ok_iff.mp h
      obtain ⟨magnitude, hmag, rfl⟩ := (signedInteger_eq_ok_iff ht).mp hm
      obtain ⟨u, b, htu, hb, rfl⟩ := readConstant_sound h
      exact ⟨_, ((hts.trans htt).trans htn).trans htu, .linear (.digits hs hmag) hn hb⟩

theorem readBody_sound {c after : Cursor} {f : Formula}
    (h : readBody standard c = .ok (f, after)) :
    ∃ text, c.Takes text after ∧ FormulaBody text f := by
  unfold readBody at h
  split at h
  · next s d heven =>
    obtain ⟨hs, ht, -⟩ := token_iff.mp heven
    simp only [Except.ok.injEq, Prod.mk.injEq] at h
    obtain ⟨rfl, rfl⟩ := h
    exact ⟨s, ht, .even hs⟩
  · split at h
    · next s d hodd =>
      obtain ⟨hs, ht, -⟩ := token_iff.mp hodd
      simp only [Except.ok.injEq, Prod.mk.injEq] at h
      obtain ⟨rfl, rfl⟩ := h
      exact ⟨s, ht, .odd hs⟩
    · exact readLinear_sound h

theorem read_sound {c after : Cursor} {f : Formula} (h : read standard c = .ok (f, after)) :
    ∃ text, c.Takes text after ∧ FormulaText text f := by
  obtain ⟨c1, h1, h⟩ := bind_eq_ok_iff.mp h
  obtain ⟨⟨f', c3⟩, h3, h⟩ := bind_eq_ok_iff.mp h
  obtain ⟨c5, h5, h⟩ := bind_eq_ok_iff.mp h
  simp only [pure, Except.pure, Except.ok.injEq, Prod.mk.injEq] at h
  obtain ⟨rfl, rfl⟩ := h
  obtain ⟨_, ho⟩ := expect_eq_ok_iff.mp h1
  obtain ⟨_, hc⟩ := expect_eq_ok_iff.mp h5
  obtain ⟨rfl, hto, -⟩ := token_iff.mp ho
  obtain ⟨rfl, htc, -⟩ := token_iff.mp hc
  obtain ⟨v, hv, htv, -⟩ := skip_spaces_iff.mp (rfl : standard.skip .spaces c1 = _)
  obtain ⟨w, hw, htw, -⟩ := skip_spaces_iff.mp (rfl : standard.skip .spaces c3 = _)
  obtain ⟨body, htb, hbody⟩ := readBody_sound h3
  refine ⟨_, (((hto.trans htv).trans htb).trans htw).trans htc, v, body, w, ?_, hv, hbody, hw⟩
  simp

/-! ## What the reader accepts -/

/-- After white space comes the closing parenthesis. -/
def Closes (s : List Char) : Prop := ∃ w r, s = w ++ ')' :: r ∧ SpaceText w

theorem Closes.headIs_eq_false {s : List Char} (h : Closes s) {p : Char → Bool}
    (hs : ∀ c, isSpace c → p c = false) (hp : p ')' = false) : headIs p s = false := by
  obtain ⟨w, r, rfl, hw⟩ := h
  cases w with
  | nil => exact hp
  | cons c w => exact hs c (hw c (by simp))

/-- Where a character of another class stands, no token of a class of characters starts. -/
theorem token_sign_eq_none {c : Cursor} (h : headIs (fun x => x == '-' || x == '+') c.rest = false) :
    standard.token .sign c = none := by
  refine token_eq_none_of_head _ ?_ h
  rintro _ (rfl | rfl) <;> rfl

theorem token_n_eq_none {c : Cursor} (h : headIs (fun x => x == 'n' || x == 'N') c.rest = false) :
    standard.token .n c = none := by
  refine token_eq_none_of_head _ ?_ h
  rintro _ (rfl | rfl) <;> rfl

theorem token_number_eq_none {c : Cursor} (h : headIs isDigit c.rest = false) :
    standard.token .number c = none := by
  refine token_eq_none_of_head _ ?_ h
  rintro _ ⟨d, t, rfl, hd, -⟩
  exact hd

theorem token_sign_of_text {s : List Char} {negative : Bool} {c d : Cursor}
    (hs : SignText s negative) (ht : c.Takes s d) :
    standard.token .sign c = some (s, d) ∧ (s == ['-']) = negative := by
  have hno : headIs (fun _ => false) d.rest = false := by cases d.rest <;> rfl
  rcases hs with ⟨rfl, rfl⟩ | ⟨rfl, rfl⟩
  · exact ⟨token_iff.mpr ⟨.inr rfl, ht, hno⟩, rfl⟩
  · exact ⟨token_iff.mpr ⟨.inl rfl, ht, hno⟩, rfl⟩

theorem headed_of_numberText {s : List Char} {m : Int64} (h : NumberText s m) :
    Headed isDigit isDigit s := by
  obtain ⟨n, hn, -⟩ := h
  exact headed_of_natural? hn

theorem token_number_of_text {s : List Char} {m : Int64} {c d : Cursor} (hs : NumberText s m)
    (ht : c.Takes s d) (hd : headIs isDigit d.rest = false) :
    standard.token .number c = some (s, d) :=
  token_iff.mpr ⟨headed_of_numberText hs, ht, hd⟩

theorem readConstant_complete {t : List Char} {a b : Int64} {c after : Cursor}
    (h : ConstantText t b) (ht : c.Takes t after) (hc : Closes after.rest) :
    readConstant standard a c = .ok (.linear a b, after) := by
  unfold readConstant
  cases h with
  | absent =>
    obtain rfl := (Cursor.Takes.refl c).unique ht
    obtain ⟨w, r, hr, hw⟩ := hc
    have hskip := skip_spaces_iff.mpr ⟨w, hw, .advance c hr, rfl⟩
    have hnone : standard.token .sign (c.advance w (')' :: r)) = none := token_sign_eq_none rfl
    rw [hskip, hnone]
  | @present v sign w digits negative m hv hsign hw hm =>
    obtain ⟨c3, ht, ht4⟩ := ht.split
    obtain ⟨c2, ht, ht3⟩ := ht.split
    obtain ⟨c1, ht1, ht2⟩ := ht.split
    obtain ⟨d, digits', rfl, hd, -⟩ := headed_of_numberText hm
    have hs1 : standard.skip .spaces c = c1 := by
      rcases hsign with ⟨rfl, -⟩ | ⟨rfl, -⟩ <;>
        exact skip_spaces_of_text hv ht1 ht2 (by simp) (by decide)
    have hs2 : standard.skip .spaces c2 = c3 := 
      skip_spaces_of_text hw ht3 ht4 (by simp) (isSpace_of_isDigit hd)
    obtain ⟨hsg, hneg⟩ := token_sign_of_text hsign ht2
    have hnum := token_number_of_text hm ht4
      (hc.headIs_eq_false (fun _ => isDigit_of_isSpace) (by decide))
    have hint : signedInteger (d :: digits') (sign == ['-']) c3 = .ok (signed negative m) :=
      (signedInteger_eq_ok_iff (headed_of_numberText hm)).mpr ⟨m, hm, by rw [hneg]⟩
    simp only [hs1, hsg, hs2, hnum, hint]
    rfl

theorem readSign_complete {s : List Char} {negative : Bool} {c d : Cursor}
    (h : OptionalSign s negative) (ht : c.Takes s d)
    (hd : headIs (fun x => x == '-' || x == '+') d.rest = false) :
    readSign standard c = (negative, d) := by
  unfold readSign
  rcases h with ⟨rfl, rfl⟩ | h
  · obtain rfl := (Cursor.Takes.refl c).unique ht
    rw [token_sign_eq_none hd]
  · obtain ⟨hs, hneg⟩ := token_sign_of_text h ht
    rw [hs, ← hneg]

theorem ne_sign_of_isDigit {c : Char} (h : isDigit c) : (c == '-' || c == '+') = false := by
  have h1 : c ≠ '-' := by rintro rfl; exact absurd h (by decide)
  have h2 : c ≠ '+' := by rintro rfl; exact absurd h (by decide)
  simp [h1, h2]

theorem readLinear_position {s t : List Char} {negative : Bool} {m : Int64} {c after : Cursor}
    (hs : OptionalSign s negative) (ht : NumberText t m) (hta : c.Takes (s ++ t) after)
    (hc : Closes after.rest) :
    readLinear standard c = .ok (.linear 0 (signed negative m), after) := by
  obtain ⟨c1, ht1, ht2⟩ := hta.split
  obtain ⟨d, t', rfl, hd, -⟩ := headed_of_numberText ht
  have hsign : readSign standard c = (negative, c1) :=
    readSign_complete hs ht1 (by rw [ht2.rest]; exact ne_sign_of_isDigit hd)
  have hdigits : readDigits standard c1 = (some (d :: t'), after) := by
    have hnum := token_number_of_text ht ht2
      (hc.headIs_eq_false (fun _ => isDigit_of_isSpace) (by decide))
    rw [readDigits, hnum]
  have hn : standard.token .n after = none := by
    refine token_n_eq_none (hc.headIs_eq_false ?_ rfl)
    intro x hx
    have h1 : x ≠ 'n' := by rintro rfl; exact absurd hx (by decide)
    have h2 : x ≠ 'N' := by rintro rfl; exact absurd hx (by decide)
    simp [h1, h2]
  have hint : signedInteger (d :: t') negative c1 = .ok (signed negative m) :=
    (signedInteger_eq_ok_iff (headed_of_numberText ht)).mpr ⟨m, ht, rfl⟩
  simp only [readLinear, hsign, hdigits, hn, hint]
  rfl

theorem readLinear_linear {s n t : List Char} {a b : Int64} {c after : Cursor}
    (hs : CoefficientText s a) (hn : TokenKind.n.IsText n) (ht : ConstantText t b)
    (hta : c.Takes (s ++ n ++ t) after) (hc : Closes after.rest) :
    readLinear standard c = .ok (.linear a b, after) := by
  obtain ⟨c2, hta, ht3⟩ := hta.split
  have hno : headIs (fun _ => false) c2.rest = false := by cases c2.rest <;> rfl
  have hconstant := fun a => @readConstant_complete t a b c2 after ht ht3 hc
  cases hs with
  | @sign s negative hs =>
    obtain ⟨c1, ht1, ht2⟩ := hta.split
    have hletter : standard.token .n c1 = some (n, c2) := token_iff.mpr ⟨hn, ht2, hno⟩
    have hsign : readSign standard c = (negative, c1) := by
      refine readSign_complete hs ht1 ?_
      rw [ht2.rest]
      rcases hn with rfl | rfl <;> rfl
    have hdigits : readDigits standard c1 = (none, c1) := by
      have hnum : standard.token .number c1 = none := by
        apply token_number_eq_none
        rw [ht2.rest]
        rcases hn with rfl | rfl <;> rfl
      rw [readDigits, hnum]
    simp only [readLinear, hsign, hdigits, hletter, hconstant]
    cases negative <;> rfl
  | @digits s u negative m hs hu =>
    obtain ⟨c1, hta, ht2⟩ := hta.split
    obtain ⟨c0, ht0, ht1⟩ := hta.split
    obtain ⟨d, u', rfl, hd, -⟩ := headed_of_numberText hu
    have hletter : standard.token .n c1 = some (n, c2) := token_iff.mpr ⟨hn, ht2, hno⟩
    have hsign : readSign standard c = (negative, c0) :=
      readSign_complete hs ht0 (by rw [ht1.rest]; exact ne_sign_of_isDigit hd)
    have hdigits : readDigits standard c0 = (some (d :: u'), c1) := by
      have hstop : headIs isDigit c1.rest = false := by
        rw [ht2.rest]
        rcases hn with rfl | rfl <;> rfl
      rw [readDigits, token_number_of_text hu ht1 hstop]
    have hint : signedInteger (d :: u') negative c0 = .ok (signed negative m) :=
      (signedInteger_eq_ok_iff (headed_of_numberText hu)).mpr ⟨m, hu, rfl⟩
    simp only [readLinear, hsign, hdigits, hletter, hint]
    exact hconstant _

/-- A formula of numbers starts with a sign, a digit or `n`. -/
def startsLinear (c : Char) : Bool := c == '-' || c == '+' || c == 'n' || c == 'N' || isDigit c

theorem startsLinear_of_sign {s t : List Char} {negative : Bool} (hs : OptionalSign s negative)
    (ht : headIs startsLinear t) : headIs startsLinear (s ++ t) := by
  rcases hs with ⟨rfl, -⟩ | ⟨rfl, -⟩ | ⟨rfl, -⟩
  · exact ht
  · rfl
  · rfl

theorem startsLinear_of_number {s : List Char} {m : Int64} (h : NumberText s m) (t : List Char) :
    headIs startsLinear (s ++ t) := by
  obtain ⟨d, s', rfl, hd, -⟩ := headed_of_numberText h
  simp [Formula.startsLinear, hd]

theorem startsLinear_of_coefficient {s n : List Char} {a : Int64} (hs : CoefficientText s a)
    (hn : TokenKind.n.IsText n) (t : List Char) : headIs startsLinear (s ++ n ++ t) := by
  cases hs with
  | sign hs =>
    rw [List.append_assoc]
    exact startsLinear_of_sign hs (by rcases hn with rfl | rfl <;> rfl)
  | digits hs hm =>
    rw [List.append_assoc, List.append_assoc]
    exact startsLinear_of_sign hs (startsLinear_of_number hm _)

/-- No keyword and no white space starts like a formula of numbers. -/
theorem startsLinear_apart {c : Char} (h : startsLinear c) :
    (c.toLower == 'e') = false ∧ (c.toLower == 'o') = false ∧ isSpace c = false := by
  refine ⟨?_, ?_, ?_⟩
  · rw [beq_eq_false_iff_ne]
    intro he
    rcases (toLower_eq_iff 'e' 'E' (by decide) (by decide)).mp he with rfl | rfl <;>
      exact absurd h (by decide)
  · rw [beq_eq_false_iff_ne]
    intro he
    rcases (toLower_eq_iff 'o' 'O' (by decide) (by decide)).mp he with rfl | rfl <;>
      exact absurd h (by decide)
  · cases hsp : isSpace c with
    | false => rfl
    | true =>
      have hne : ∀ d, isSpace d = false → c ≠ d := by
        rintro d hd rfl
        simp [hsp] at hd
      simp [startsLinear, isDigit_of_isSpace hsp, hne '-' (by decide), hne '+' (by decide),
        hne 'n' (by decide), hne 'N' (by decide)] at h

theorem token_keyword_eq_none {kind : TokenKind} (first : Char) {c : Cursor}
    (hk : ∀ s, kind.IsText s → ∃ rest, s.map Char.toLower = first :: rest)
    (h : headIs (fun x => x.toLower == first) c.rest = false) : standard.token kind c = none := by
  refine token_eq_none_of_head _ ?_ h
  intro s hs
  obtain ⟨rest, hr⟩ := hk s hs
  cases s with
  | nil => simp at hr
  | cons x s => simpa using (List.cons.inj hr).1

theorem token_even_eq_none {c : Cursor} (h : headIs (fun x => x.toLower == 'e') c.rest = false) :
    standard.token .even c = none :=
  token_keyword_eq_none 'e' (fun _ hs => ⟨_, hs⟩) h

theorem token_odd_eq_none {c : Cursor} (h : headIs (fun x => x.toLower == 'o') c.rest = false) :
    standard.token .odd c = none :=
  token_keyword_eq_none 'o' (fun _ hs => ⟨_, hs⟩) h

/-- A body that is no keyword is left to the reader of numbers. -/
theorem readBody_of_startsLinear {s : List Char} {c d : Cursor} (ht : c.Takes s d)
    (hs : headIs startsLinear s) : readBody standard c = readLinear standard c := by
  cases s with
  | nil => simp at hs
  | cons x s =>
    obtain ⟨he, ho, -⟩ := startsLinear_apart hs
    have heven : standard.token .even c = none := token_even_eq_none (by rw [ht.rest]; exact he)
    have hodd : standard.token .odd c = none := token_odd_eq_none (by rw [ht.rest]; exact ho)
    simp only [readBody, heven, hodd]

theorem readBody_complete {s : List Char} {f : Formula} {c after : Cursor} (h : FormulaBody s f)
    (ht : c.Takes s after) (hc : Closes after.rest) :
    readBody standard c = .ok (f, after) := by
  have hno : headIs (fun _ => false) after.rest = false := by cases after.rest <;> rfl
  cases h with
  | even hs =>
    have heven : standard.token .even c = some (s, after) := token_iff.mpr ⟨hs, ht, hno⟩
    simp only [readBody, heven]
  | odd hs =>
    have hodd : standard.token .odd c = some (s, after) := token_iff.mpr ⟨hs, ht, hno⟩
    have heven : standard.token .even c = none := by
      apply token_even_eq_none
      cases s with
      | nil => simp at hs
      | cons x s =>
        have hx : x.toLower = 'o' := (List.cons.inj hs).1
        simp [ht.rest, hx]
    simp only [readBody, heven, hodd]
  | position hs hm =>
    have hstart := startsLinear_of_sign hs (by simpa using startsLinear_of_number hm [])
    rw [readBody_of_startsLinear ht hstart]
    exact readLinear_position hs hm ht hc
  | linear hs hn hb =>
    rw [readBody_of_startsLinear ht (startsLinear_of_coefficient hs hn _)]
    exact readLinear_linear hs hn hb ht hc

/-- A body is not empty and starts with no white space. -/
theorem body_start {s : List Char} {f : Formula} (h : FormulaBody s f) :
    s ≠ [] ∧ headIs isSpace s = false := by
  have hkeyword : ∀ first rest, s.map Char.toLower = first :: rest →
      isPseudoPart first → s ≠ [] ∧ headIs isSpace s = false := by
    intro first rest hs hf
    cases s with
    | nil => simp at hs
    | cons x s =>
      refine ⟨by simp, ?_⟩
      have hx : isPseudoPart x := by
        rw [← isPseudoPart_toLower, (List.cons.inj hs).1, hf]
      exact isSpace_of_isNamePart (isNamePart_of_isPseudoPart hx)
  have hlinear : headIs startsLinear s → s ≠ [] ∧ headIs isSpace s = false := by
    intro hs
    cases s with
    | nil => simp at hs
    | cons x s => exact ⟨by simp, (startsLinear_apart hs).2.2⟩
  cases h with
  | even hs => exact hkeyword 'e' _ hs rfl
  | odd hs => exact hkeyword 'o' _ hs rfl
  | position hs hm =>
    exact hlinear (startsLinear_of_sign hs (by simpa using startsLinear_of_number hm []))
  | linear hs hn hb => exact hlinear (startsLinear_of_coefficient hs hn _)

theorem read_complete {s : List Char} {f : Formula} {c after : Cursor} (h : FormulaText s f)
    (ht : c.Takes s after) : read standard c = .ok (f, after) := by
  obtain ⟨v, body, w, rfl, hv, hbody, hw⟩ := h
  obtain ⟨c1, ht1, ht⟩ := Cursor.Takes.split (s := ['(']) ht
  obtain ⟨c4, ht, ht5⟩ := ht.split
  obtain ⟨c3, ht, ht4⟩ := ht.split
  obtain ⟨c2, ht2, ht3⟩ := ht.split
  have hopen : standard.expect .leftParen .formulaOpening c = .ok c1 :=
    expect_of_text .leftParen rfl rfl ht1 _
  have hclose : standard.expect .rightParen .formulaClosing c4 = .ok after :=
    expect_of_text .rightParen rfl rfl ht5 _
  have hs1 : standard.skip .spaces c1 = c2 :=
    skip_spaces_of_text hv ht2 ht3 (body_start hbody).1 (body_start hbody).2
  have hs2 : standard.skip .spaces c3 = c4 :=
    skip_spaces_of_text hw ht4 ht5 (by simp) (by decide)
  have hb : readBody standard c2 = .ok (f, c3) :=
    readBody_complete hbody ht3 ⟨w, after.rest, by rw [ht4.rest, ht5.rest]; rfl, hw⟩
  simp only [read, hopen, bind, Except.bind, hs1, hb, hs2, hclose]
  rfl

/-- The reader takes the texts of formulas and nothing else. -/
theorem read_iff {c after : Cursor} {f : Formula} : read standard c = .ok (f, after) ↔
    ∃ text, c.Takes text after ∧ FormulaText text f :=
  ⟨read_sound, fun ⟨_, ht, hf⟩ => read_complete hf ht⟩

end Formula

end SelectorPath
