import SelectorPath.Proofs.Token.Place
import SelectorPath.Selector.Quoted

/-!
How values are spelled in quotes. `Spelling` relates a text between quotes to the value that it
stands for, character by character: as it is, after a backslash, or by its code point. Where such a
text ends is a matter of the tokens and what it stands for one of the decoder, and both agree with
the spelling (`Quoted.token_value_iff`).
-/

namespace SelectorPath.Quoted

open Text

/-! ## Spellings -/

/-- A hexadecimal digit, small or capital, and its value. -/
def HexDigit (c : Char) (d : Nat) : Prop := d < 16 ∧ c.toLower = Nat.digitChar d

def IsHex (c : Char) : Prop := ∃ d, HexDigit c d

/-- One to six hexadecimal digits and the number that they stand for. -/
def HexText (s : List Char) (n : Nat) : Prop :=
  1 ≤ s.length ∧ s.length ≤ 6 ∧
    ∃ digits, List.Forall₂ HexDigit s digits ∧ n = Nat.ofDigits 16 digits.reverse

/-- The character that a number stands for. The null character, surrogates and what lies above the
last code point cannot be meant and become the replacement character. -/
inductive Denotes : Nat → Char → Prop
  | char {c : Char} : c ≠ '\x00' → Denotes c.toNat c
  | replacement {n : Nat} :
      n = 0 ∨ 0xD800 ≤ n ∧ n ≤ 0xDFFF ∨ 0x10FFFF < n → Denotes n '\ufffd'

/-- The blanks that can end an escape. -/
def blanks : List Char := [' ', '\t', '\n', '\x0c', '\r']

/-- No blank is needed between digits and a text that neither starts with a blank nor goes on with
the digits. -/
def Separate (digits rest : List Char) : Prop :=
  ∀ c t, rest = c :: t → c ∉ blanks ∧ (digits.length = 6 ∨ ¬IsHex c)

/-- A text between quotes and the characters that it stands for. -/
inductive Spelling (quote : Char) : List Char → List Char → Prop
  | nil : Spelling quote [] []
  | plain {c : Char} {s v : List Char} : c ≠ quote → c ≠ '\\' → Spelling quote s v →
      Spelling quote (c :: s) (c :: v)
  | escaped {c : Char} {s v : List Char} : ¬IsHex c → c ≠ '\n' → Spelling quote s v →
      Spelling quote ('\\' :: c :: s) (c :: v)
  | code {digits s v : List Char} {n : Nat} {c blank : Char} : HexText digits n → Denotes n c →
      blank ∈ blanks → Spelling quote s v →
      Spelling quote ('\\' :: (digits ++ blank :: s)) (c :: v)
  | closedCode {digits s v : List Char} {n : Nat} {c : Char} : HexText digits n → Denotes n c →
      Separate digits s → Spelling quote s v → Spelling quote ('\\' :: (digits ++ s)) (c :: v)

/-! ## Digits -/

theorem toNat_digitChar {d : Nat} (h : d < 16) :
    (Nat.digitChar d).toNat = if d < 10 then d + 48 else d + 87 := by
  have hall : ∀ d < 16, (Nat.digitChar d).toNat = if d < 10 then d + 48 else d + 87 := by decide
  exact hall d h

theorem hexValue?_eq_some_iff {c : Char} {d : Nat} : hexValue? c = some d ↔ HexDigit c d := by
  have hdigits : '0' ≤ c ∧ c ≤ '9' ↔ 48 ≤ c.toNat ∧ c.toNat ≤ 57 := Iff.rfl
  have hsmall : 'a' ≤ c ∧ c ≤ 'f' ↔ 97 ≤ c.toNat ∧ c.toNat ≤ 102 := Iff.rfl
  have hcapital : 'A' ≤ c ∧ c ≤ 'F' ↔ 65 ≤ c.toNat ∧ c.toNat ≤ 70 := Iff.rfl
  have hzero : '0'.toNat = 48 := rfl
  have ha : 'a'.toNat = 97 := rfl
  have hA : 'A'.toNat = 65 := rfl
  have hdigit : HexDigit c d ↔ d < 16 ∧ c.toLower.toNat = if d < 10 then d + 48 else d + 87 := by
    refine and_congr_right fun hd => ?_
    rw [← toNat_digitChar hd, Char.toNat_inj]
  rw [hdigit, toNat_toLower, hexValue?]
  simp only [hdigits, hsmall, hcapital, hzero, ha, hA]
  split_ifs <;> simp <;> omega

theorem hexValue?_eq_none_iff {c : Char} : hexValue? c = none ↔ ¬IsHex c := by
  simp only [IsHex, ← hexValue?_eq_some_iff, Option.eq_none_iff_forall_ne_some, not_exists]

/-- Digits that follow a number are read up to the limit or up to a character that is none. -/
theorem hexDigits_append {s rest : List Char} {digits : List Nat}
    (h : List.Forall₂ HexDigit s digits) {limit : Nat} (hlimit : s.length ≤ limit)
    (hrest : s.length = limit ∨ ∀ c t, rest = c :: t → ¬IsHex c) (n : Nat) :
    hexDigits n limit (s ++ rest) =
      (n * 16 ^ s.length + Nat.ofDigits 16 digits.reverse, rest) := by
  induction h generalizing n limit with
  | nil =>
    cases limit with
    | zero => simp [hexDigits]
    | succ limit =>
      cases rest with
      | nil => simp [hexDigits]
      | cons c t =>
        have hnone : hexValue? c = none := hexValue?_eq_none_iff.mpr (by simpa using hrest)
        simp [hexDigits, hnone]
  | @cons c d s digits hc hs ih =>
    cases limit with
    | zero => simp at hlimit
    | succ limit =>
      have hsome := hexValue?_eq_some_iff.mpr hc
      have hlength := hs.length_eq
      simp only [List.length_cons, Nat.add_le_add_iff_right, Nat.add_right_cancel_iff]
        at hlimit hrest
      rw [List.cons_append, hexDigits, hsome]
      simp only
      rw [ih hlimit hrest, Nat.ofDigits_reverse_cons, ← hlength, List.length_cons]
      congr 1
      ring

/-- A text starts with as many digits as there are, up to a limit. -/
theorem exists_hexDigits (limit : Nat) (s : List Char) : ∃ t rest digits, s = t ++ rest ∧
    List.Forall₂ HexDigit t digits ∧ t.length ≤ limit ∧
    (t.length = limit ∨ ∀ c u, rest = c :: u → ¬IsHex c) := by
  induction limit generalizing s with
  | zero => exact ⟨[], s, [], rfl, .nil, Nat.le_refl 0, .inl rfl⟩
  | succ limit ih =>
    cases s with
    | nil => exact ⟨[], [], [], rfl, .nil, Nat.zero_le _, .inr (by simp)⟩
    | cons c s =>
      by_cases hc : IsHex c
      · obtain ⟨d, hd⟩ := hc
        obtain ⟨t, rest, digits, rfl, ht, hlimit, hrest⟩ := ih s
        refine ⟨c :: t, rest, d :: digits, rfl, .cons hd ht, Nat.succ_le_succ hlimit, ?_⟩
        exact hrest.imp_left (congrArg (· + 1))
      · refine ⟨[], c :: s, [], rfl, .nil, Nat.zero_le _, .inr ?_⟩
        rintro c' u ⟨⟩
        exact hc

/-! ## Escapes -/

theorem denotes_iff {n : Nat} {c : Char} : Denotes n c ↔ ofCodePoint n = c := by
  unfold ofCodePoint
  constructor
  · rintro (hc | hn)
    · have hzero : c.toNat ≠ 0 := fun h => hc (Char.toNat_inj.mp h)
      rw [if_pos ⟨hzero, c.valid⟩, Char.ofNat_toNat]
    · refine if_neg ?_
      simp only [Nat.isValidChar]
      omega
  · rintro rfl
    split
    · next h =>
      have htoNat : (Char.ofNat n).toNat = n := by
        rw [Char.ofNat, dif_pos h.2]
        rfl
      have hchar : Denotes (Char.ofNat n).toNat (Char.ofNat n) := by
        refine .char fun hnull => h.1 ?_
        rw [← htoNat, hnull]
        rfl
      rwa [htoNat] at hchar
    · next h =>
      refine .replacement ?_
      simp only [Nat.isValidChar] at h
      omega

theorem isBlank_iff {c : Char} : isBlank c ↔ c ∈ blanks := by
  simp [isBlank, blanks, or_assoc]

/-- A blank is no digit. -/
theorem not_isHex_of_mem_blanks {c : Char} (h : c ∈ blanks) : ¬IsHex c := by
  rw [← hexValue?_eq_none_iff]
  have hall : ∀ c ∈ blanks, hexValue? c = none := forall_mem_of_all rfl
  exact hall c h

theorem escape_of_not_isHex {c : Char} (h : ¬IsHex c) (rest : List Char) :
    escape (c :: rest) = some (c, rest) := by
  simp only [escape, hexValue?_eq_none_iff.mpr h]

theorem escape_of_hexText {s rest : List Char} {n : Nat} (h : HexText s n)
    (hrest : s.length = 6 ∨ ∀ c t, rest = c :: t → ¬IsHex c) :
    escape (s ++ rest) = some (ofCodePoint n, skipBlank rest) := by
  obtain ⟨hpos, hlimit, digits, hdigits, rfl⟩ := h
  -- The first digit is read as the others are.
  have hread := hexDigits_append hdigits hlimit hrest 0
  cases hdigits with
  | nil => simp at hpos
  | @cons c d s digits hc hs =>
    have hsome := hexValue?_eq_some_iff.mpr hc
    rw [List.cons_append, hexDigits, hsome] at hread
    simp only [zero_mul, zero_add] at hread
    simp only [List.cons_append, escape, hsome, hread]

theorem unescape_of_escape {rest after : List Char} {c : Char} (h : escape rest = some (c, after)) :
    unescape ('\\' :: rest) = c :: unescape after := by
  rw [unescape, if_pos rfl]
  split
  · next hnone => simp [h] at hnone
  · next hsome =>
    obtain ⟨rfl, rfl⟩ := Prod.mk.inj (Option.some.inj (h.symm.trans hsome))
    rfl

theorem unescape_plain {c : Char} (h : c ≠ '\\') (s : List Char) :
    unescape (c :: s) = c :: unescape s := by
  rw [unescape, if_neg h]

theorem skipBlank_of_mem_blanks {c : Char} (h : c ∈ blanks) (s : List Char) :
    skipBlank (c :: s) = s :=
  if_pos (isBlank_iff.mpr h)

theorem skipBlank_of_separate {digits s : List Char} (h : Separate digits s) : skipBlank s = s := by
  cases s with
  | nil => rfl
  | cons c s => exact if_neg fun hblank => (h c s rfl).1 (isBlank_iff.mp hblank)

/-! ## Texts between quotes -/

/-- The characters that quote a value. -/
def IsQuote (quote : Char) : Prop := quote = '"' ∨ quote = '\''

/-- Digits and blanks stand for themselves in the text between quotes. -/
theorem ne_of_isHex {quote c : Char} (hquote : IsQuote quote) (h : IsHex c) :
    c ≠ quote ∧ c ≠ '\\' ∧ c ≠ '\n' := by
  have hnone : ∀ c ∈ ['"', '\'', '\\', '\n'], hexValue? c = none := forall_mem_of_all rfl
  have hne (d : Char) (hd : d ∈ ['"', '\'', '\\', '\n']) : c ≠ d := by
    rintro rfl
    exact hexValue?_eq_none_iff.mp (hnone c hd) h
  have hmem : quote ∈ ['"', '\'', '\\', '\n'] := by
    rcases hquote with rfl | rfl <;> simp
  exact ⟨hne _ hmem, hne _ (by simp), hne _ (by simp)⟩

theorem ne_of_mem_blanks {quote c : Char} (hquote : IsQuote quote) (h : c ∈ blanks) :
    c ≠ quote ∧ c ≠ '\\' := by
  have hall : ∀ c ∈ blanks, c ≠ '"' ∧ c ≠ '\'' ∧ c ≠ '\\' := forall_mem_of_all rfl
  obtain ⟨hdouble, hsingle, hslash⟩ := hall c h
  rcases hquote with rfl | rfl
  · exact ⟨hdouble, hslash⟩
  · exact ⟨hsingle, hslash⟩

theorem quotedBody_cons_iff {quote c : Char} {s : List Char} (h : c ≠ quote ∧ c ≠ '\\') :
    QuotedBody quote (c :: s) ↔ QuotedBody quote s := by
  constructor
  · intro hbody
    cases hbody with
    | escaped => exact absurd rfl h.2
    | plain _ _ hs => exact hs
  · exact .plain h.1 h.2

theorem quotedBody_append_iff {quote : Char} {s t : List Char}
    (h : ∀ c ∈ s, c ≠ quote ∧ c ≠ '\\') :
    QuotedBody quote (s ++ t) ↔ QuotedBody quote t := by
  induction s with
  | nil => exact Iff.rfl
  | cons c s ih =>
    obtain ⟨hc, hs⟩ := List.forall_mem_cons.mp h
    rw [List.cons_append, quotedBody_cons_iff hc, ih hs]

theorem isHex_of_forall₂ {s : List Char} {digits : List Nat}
    (h : List.Forall₂ HexDigit s digits) : ∀ c ∈ s, IsHex c := by
  induction h with
  | nil => simp
  | cons hc _ ih => exact List.forall_mem_cons.mpr ⟨⟨_, hc⟩, ih⟩

/-- The tokens see an escape by code point as an escaped digit and plain digits. -/
theorem quotedBody_code_iff {quote : Char} (hquote : IsQuote quote) {digits s : List Char} {n : Nat}
    (h : HexText digits n) :
    QuotedBody quote ('\\' :: (digits ++ s)) ↔ QuotedBody quote s := by
  obtain ⟨hpos, -, values, hvalues, -⟩ := h
  have hhex := isHex_of_forall₂ hvalues
  cases digits with
  | nil => simp at hpos
  | cons d digits =>
    obtain ⟨hd, hdigits⟩ := List.forall_mem_cons.mp hhex
    have hplain : ∀ c ∈ digits, c ≠ quote ∧ c ≠ '\\' := fun c hc =>
      ⟨(ne_of_isHex hquote (hdigits c hc)).1, (ne_of_isHex hquote (hdigits c hc)).2.1⟩
    rw [← quotedBody_append_iff (t := s) hplain]
    constructor
    · intro hbody
      cases hbody with
      | escaped _ hs => exact hs
      | plain _ hslash => exact absurd rfl hslash
    · exact .escaped (ne_of_isHex hquote hd).2.2

namespace Spelling

variable {quote : Char} {s v : List Char}

theorem quotedBody (hquote : IsQuote quote) (h : Spelling quote s v) : QuotedBody quote s := by
  induction h with
  | nil => exact .nil
  | plain hc hslash _ ih => exact .plain hc hslash ih
  | escaped _ hline _ ih => exact .escaped hline ih
  | code hdigits _ hblank _ ih =>
    rw [quotedBody_code_iff hquote hdigits, quotedBody_cons_iff (ne_of_mem_blanks hquote hblank)]
    exact ih
  | closedCode hdigits _ _ _ ih => exact (quotedBody_code_iff hquote hdigits).mpr ih

theorem unescape_eq (h : Spelling quote s v) : unescape s = v := by
  induction h with
  | nil => rw [unescape]
  | plain _ hslash _ ih => rw [unescape_plain hslash, ih]
  | escaped hhex _ _ ih => rw [unescape_of_escape (escape_of_not_isHex hhex _), ih]
  | @code digits s v n c blank hdigits hchar hblank _ ih =>
    have hescape : escape (digits ++ blank :: s) = some (ofCodePoint n, skipBlank (blank :: s)) :=
      escape_of_hexText hdigits
        (.inr fun _ _ h => (List.cons.inj h).1 ▸ not_isHex_of_mem_blanks hblank)
    rw [unescape_of_escape hescape, skipBlank_of_mem_blanks hblank, ih, denotes_iff.mp hchar]
  | @closedCode digits s v n c hdigits hchar hseparate _ ih =>
    have hstop : digits.length = 6 ∨ ∀ d t, s = d :: t → ¬IsHex d := by
      by_cases hsix : digits.length = 6
      · exact .inl hsix
      · exact .inr fun d t hs => (hseparate d t hs).2.resolve_left hsix
    rw [unescape_of_escape (escape_of_hexText hdigits hstop), skipBlank_of_separate hseparate, ih,
      denotes_iff.mp hchar]

/-- What an escape by code point leaves of a text, with or without a blank, is spelled after it. -/
theorem of_hexText {digits rest : List Char} {n : Nat} (h : HexText digits n)
    (hstop : digits.length = 6 ∨ ∀ c t, rest = c :: t → ¬IsHex c)
    (hspelling : Spelling quote (skipBlank rest) v) :
    Spelling quote ('\\' :: (digits ++ rest)) (ofCodePoint n :: v) := by
  have hchar := denotes_iff.mpr (Eq.refl (ofCodePoint n))
  by_cases hblank : ∃ c t, rest = c :: t ∧ c ∈ blanks
  · obtain ⟨c, t, rfl, hc⟩ := hblank
    rw [skipBlank_of_mem_blanks hc] at hspelling
    exact .code h hchar hc hspelling
  · have hseparate : Separate digits rest := fun c t hrest =>
      ⟨fun hc => hblank ⟨c, t, hrest, hc⟩, hstop.imp_right fun hnot => hnot c t hrest⟩
    rw [skipBlank_of_separate hseparate] at hspelling
    exact .closedCode h hchar hseparate hspelling

end Spelling

/-- A blank can be left out of a text between quotes. -/
theorem quotedBody_skipBlank {quote : Char} (hquote : IsQuote quote) {s : List Char}
    (h : QuotedBody quote s) : QuotedBody quote (skipBlank s) := by
  cases s with
  | nil => exact h
  | cons c s =>
    rw [skipBlank]
    split
    · next hblank =>
      exact (quotedBody_cons_iff (ne_of_mem_blanks hquote (isBlank_iff.mp hblank))).mp h
    · exact h

/-- The digits after a backslash. -/
theorem exists_hexText {c : Char} (hc : IsHex c) (s : List Char) : ∃ digits rest n,
    c :: s = digits ++ rest ∧ HexText digits n ∧
      (digits.length = 6 ∨ ∀ d t, rest = d :: t → ¬IsHex d) := by
  obtain ⟨digits, rest, values, hs, hvalues, hlimit, hstop⟩ := exists_hexDigits 6 (c :: s)
  refine ⟨digits, rest, _, hs, ⟨?_, hlimit, values, hvalues, rfl⟩, hstop⟩
  rw [Nat.one_le_iff_ne_zero, ne_eq, List.length_eq_zero_iff]
  rintro rfl
  exact hstop.elim (by simp) fun hnot => hnot c s hs.symm hc

/-- A text between quotes spells what it stands for. -/
theorem spelling_unescape {quote : Char} (hquote : IsQuote quote) {s : List Char}
    (h : QuotedBody quote s) : Spelling quote s (unescape s) := by
  -- An escape takes several characters at a time, hence the induction on the length.
  induction hn : s.length using Nat.strongRecOn generalizing s with
  | ind n ih =>
  subst hn
  cases h with
  | nil =>
    rw [unescape]
    exact .nil
  | @plain c s hc hslash hs =>
    rw [unescape_plain hslash]
    exact .plain hc hslash (ih _ (by simp) hs rfl)
  | @escaped c s hline hs =>
    by_cases hhex : IsHex c
    · obtain ⟨digits, rest, n, heq, hdigits, hstop⟩ := exists_hexText hhex s
      have hbody : QuotedBody quote ('\\' :: c :: s) := .escaped hline hs
      have hescape := escape_of_hexText hdigits hstop
      rw [heq] at hbody ⊢
      rw [unescape_of_escape hescape]
      refine .of_hexText hdigits hstop (ih _ ?_ ?_ rfl)
      · rw [heq]
        exact Nat.lt_succ_of_lt (escape_length hescape)
      · exact quotedBody_skipBlank hquote ((quotedBody_code_iff hquote hdigits).mp hbody)
    · rw [unescape_of_escape (escape_of_not_isHex hhex s)]
      exact .escaped hhex hline (ih _ (by simp) hs rfl)

/-! ## Tokens -/

theorem value_quoted (quote : Char) (s : List Char) :
    value (quote :: (s ++ [quote])) = String.ofList (unescape s) := by
  rw [value, List.tail_cons, List.dropLast_concat]

/-- The text of a token is a spelling of its value in quotes. -/
theorem quotedText_value_iff {quote : Char} (hquote : IsQuote quote) {text : List Char}
    {v : String} :
    QuotedText quote text ∧ value text = v ↔
      ∃ s, text = quote :: (s ++ [quote]) ∧ Spelling quote s v.toList := by
  constructor
  · rintro ⟨⟨s, rfl, hs⟩, rfl⟩
    refine ⟨s, rfl, ?_⟩
    rw [value_quoted, String.toList_ofList]
    exact spelling_unescape hquote hs
  · rintro ⟨s, rfl, hs⟩
    refine ⟨⟨s, rfl, hs.quotedBody hquote⟩, ?_⟩
    rw [value_quoted, hs.unescape_eq, String.ofList_toList]

/-- Wherever a text stands, it is the token of a value if and only if it is a spelling in quotes of
this value, whatever comes after it. -/
theorem token_value_iff {c after : Cursor} {text : List Char} {v : String} :
    Lexicon.standard.token .attributeValue c = some (text, after) ∧ value text = v ↔
      ∃ quote s, IsQuote quote ∧ text = quote :: (s ++ [quote]) ∧ c.Takes text after ∧
        Spelling quote s v.toList := by
  have hno : headIs (TokenKind.goesOn .attributeValue) after.rest = false := by
    cases after.rest <;> rfl
  have htext : TokenKind.attributeValue.IsText text ↔
      ∃ quote, IsQuote quote ∧ QuotedText quote text := by
    simp [TokenKind.IsText, IsQuote]
  rw [Lexicon.token_iff, htext]
  constructor
  · rintro ⟨⟨⟨quote, hquote, hquoted⟩, htakes, -⟩, hvalue⟩
    obtain ⟨s, hs, hspelling⟩ := (quotedText_value_iff hquote).mp ⟨hquoted, hvalue⟩
    exact ⟨quote, s, hquote, hs, htakes, hspelling⟩
  · rintro ⟨quote, s, hquote, hs, htakes, hspelling⟩
    obtain ⟨hquoted, hvalue⟩ := (quotedText_value_iff hquote).mpr ⟨s, hs, hspelling⟩
    exact ⟨⟨⟨quote, hquote, hquoted⟩, htakes, hno⟩, hvalue⟩

end SelectorPath.Quoted
