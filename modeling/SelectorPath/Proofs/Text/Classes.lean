import Mathlib
import SelectorPath.Text.Digit
import SelectorPath.Text.Space
import SelectorPath.Text.Word

/-!
Classes of characters and runs of them. White space has no word character in it, the ASCII
letters are word characters, and a text splits in one way only into a run of a class and
a text that does not go on with that class (`span_iff`).
-/

namespace SelectorPath.Text

/-! ## The classes of names -/

def isLetter (c : Char) : Bool := ('a' ≤ c && c ≤ 'z') || ('A' ≤ c && c ≤ 'Z')

/-- What a name starts with. -/
def isNameStart (c : Char) : Bool := c == '_' || isLetter c

/-- What a name goes on with. -/
def isNamePart (c : Char) : Bool := c == '-' || isWord c

/-- What the name of an attribute goes on with. -/
def isAttributePart (c : Char) : Bool := isNamePart c || c == '.'

/-- What the name of a pseudo-class is made of. -/
def isPseudoPart (c : Char) : Bool := c == '-' || isNameStart c

/-- The white space of XML. -/
def isXmlSpace (c : Char) : Bool := c == ' ' || c == '\t' || c == '\n' || c == '\r'

theorem of_isXmlSpace {P : Char → Prop} {c : Char} (h : isXmlSpace c)
    (hall : ∀ x ∈ " \t\n\r".toList, P x) : P c :=
  hall c (by simpa [isXmlSpace, or_assoc] using h)

theorem inRanges_sound {n : Nat} {ranges : List (Nat × Nat)} (h : inRanges n ranges) :
    ∃ r ∈ ranges, r.1 ≤ n ∧ n ≤ r.2 := by
  induction ranges with
  | nil => simp [inRanges] at h
  | cons r rest ih =>
    obtain ⟨lo, hi⟩ := r
    simp only [inRanges] at h
    split at h
    · next hle => exact ⟨(lo, hi), by simp, by simpa using h, hle⟩
    · obtain ⟨r, hr, hn⟩ := ih h
      exact ⟨r, by simp [hr], hn⟩

/-- Ranges that hold no character of other ranges, which are tested one by one. -/
theorem inRanges_of_disjoint {ranges others : List (Nat × Nat)} {n : Nat}
    (hall : ∀ r ∈ others, ∀ k, k ≤ r.2 - r.1 → inRanges (r.1 + k) ranges = false)
    (h : inRanges n others) : inRanges n ranges = false := by
  obtain ⟨r, hr, hlo, hhi⟩ := inRanges_sound h
  have hn := hall r hr (n - r.1) (by omega)
  rwa [show r.1 + (n - r.1) = n by omega] at hn

/-- No word character is white space. -/
theorem isWord_of_isSpace {c : Char} (h : isSpace c) : isWord c = false :=
  inRanges_of_disjoint (by decide +kernel) h

theorem isDigit_of_isSpace {c : Char} (h : isSpace c) : isDigit c = false :=
  inRanges_of_disjoint (by decide +kernel) h

/-- Whether ranges in ascending order hold all numbers between two. -/
def covers : List (Nat × Nat) → Nat × Nat → Bool
  | [], _ => false
  | range :: rest, r =>
    if range.2 < r.1 then covers rest r
    else range.1 ≤ r.1 && (r.2 ≤ range.2 || covers rest (range.2 + 1, r.2))

theorem inRanges_of_covers {ranges : List (Nat × Nat)} {n : Nat} (r : Nat × Nat)
    (h : covers ranges r) (hfirst : r.1 ≤ n) (hlast : n ≤ r.2) : inRanges n ranges := by
  induction ranges generalizing r with
  | nil => simp [covers] at h
  | cons range rest ih =>
    simp only [covers] at h
    rw [inRanges]
    split at h
    · rw [if_neg (by omega)]
      exact ih r h hfirst hlast
    · simp only [Bool.and_eq_true, Bool.or_eq_true, decide_eq_true_eq] at h
      split
      · exact decide_eq_true (by omega)
      · have hrest := h.2.resolve_left (by omega)
        exact ih (range.2 + 1, r.2) hrest (by dsimp only; omega) hlast

theorem inRanges_of_isNameStart {ranges : List (Nat × Nat)} {c : Char}
    (hall : ∀ r ∈ [(0x41, 0x5A), (0x5F, 0x5F), (0x61, 0x7A)], covers ranges r)
    (h : isNameStart c) : inRanges c.toNat ranges := by
  simp only [isNameStart, isLetter, Bool.or_eq_true, beq_iff_eq, Bool.and_eq_true,
    decide_eq_true_eq] at h
  rcases h with rfl | ⟨h1, h2⟩ | ⟨h1, h2⟩
  · exact inRanges_of_covers (0x5F, 0x5F) (hall _ (by simp)) (by decide) (by decide)
  · exact inRanges_of_covers (0x61, 0x7A) (hall _ (by simp)) h1 h2
  · exact inRanges_of_covers (0x41, 0x5A) (hall _ (by simp)) h1 h2

theorem isWord_of_isNameStart {c : Char} (h : isNameStart c) : isWord c :=
  inRanges_of_isNameStart (by decide +kernel) h

theorem isNamePart_of_isPseudoPart {c : Char} (h : isPseudoPart c) : isNamePart c := by
  simp only [isPseudoPart, isNamePart, Bool.or_eq_true] at h ⊢
  exact h.imp_right isWord_of_isNameStart

theorem isNamePart_of_isSpace {c : Char} (h : isSpace c) : isNamePart c = false := by
  have hne : c ≠ '-' := by rintro rfl; exact absurd h (by decide)
  simp [isNamePart, hne, isWord_of_isSpace h]

theorem isSpace_of_isNamePart {c : Char} (h : isNamePart c) : isSpace c = false := by
  cases hs : isSpace c with
  | false => rfl
  | true => simp [isNamePart_of_isSpace hs] at h

/-- What is tested of each character of a text holds of all. -/
theorem forall_mem_of_all {P : Char → Prop} [DecidablePred P] {s : List Char}
    (h : (s.all fun c => decide (P c)) = true) : ∀ c ∈ s, P c := by
  simpa using h

theorem isSpace_of_isXmlSpace {c : Char} (h : isXmlSpace c) : isSpace c :=
  of_isXmlSpace (P := fun x => isSpace x) h (forall_mem_of_all rfl)

theorem isSpace_of_isDigit {c : Char} (h : isDigit c) : isSpace c = false := by
  cases hs : isSpace c with
  | false => rfl
  | true => simp [isDigit_of_isSpace hs] at h

/-! ## Lower case -/

theorem toNat_toLower (c : Char) :
    c.toLower.toNat = if 65 ≤ c.toNat ∧ c.toNat ≤ 90 then c.toNat + 32 else c.toNat := by
  unfold Char.toLower
  split
  · next h =>
    have hc : 65 ≤ c.toNat ∧ c.toNat ≤ 90 := h
    rw [if_pos hc]
    change (c.val + 32).toNat = c.val.toNat + 32
    rw [UInt32.toNat_add]
    change (c.toNat + 32) % 2 ^ 32 = c.toNat + 32
    omega
  · next h => exact (if_neg h).symm

/-- A small letter is the lower case of itself and of its capital. -/
theorem toLower_eq_iff {c : Char} (small capital : Char) (hs : 97 ≤ small.toNat ∧ small.toNat ≤ 122)
    (hc : small.toNat = capital.toNat + 32) :
    c.toLower = small ↔ c = small ∨ c = capital := by
  rw [← Char.toNat_inj, ← Char.toNat_inj, ← Char.toNat_inj, toNat_toLower]
  split <;> omega

theorem isPseudoPart_iff (c : Char) : isPseudoPart c ↔ c.toNat = 45 ∨ c.toNat = 95 ∨
    (97 ≤ c.toNat ∧ c.toNat ≤ 122) ∨ (65 ≤ c.toNat ∧ c.toNat ≤ 90) := by
  have hd : c = '-' ↔ c.toNat = 45 := Char.toNat_inj.symm
  have hu : c = '_' ↔ c.toNat = 95 := Char.toNat_inj.symm
  have hl : 'a' ≤ c ∧ c ≤ 'z' ↔ 97 ≤ c.toNat ∧ c.toNat ≤ 122 := Iff.rfl
  have hc : 'A' ≤ c ∧ c ≤ 'Z' ↔ 65 ≤ c.toNat ∧ c.toNat ≤ 90 := Iff.rfl
  simp only [isPseudoPart, isNameStart, isLetter, Bool.or_eq_true, beq_iff_eq, Bool.and_eq_true,
    decide_eq_true_eq, hd, hu, hl, hc]

/-- The case of a letter does not matter for the names of pseudo-classes. -/
theorem isPseudoPart_toLower (c : Char) : isPseudoPart c.toLower = isPseudoPart c := by
  rw [Bool.eq_iff_iff, isPseudoPart_iff, isPseudoPart_iff, toNat_toLower]
  split <;> omega

/-! ## Runs -/

/-- Whether a text starts with a character of a class. -/
def headIs (p : Char → Bool) : List Char → Bool
  | [] => false
  | c :: _ => p c

@[simp] theorem headIs_nil (p : Char → Bool) : headIs p [] = false := rfl

@[simp] theorem headIs_cons (p : Char → Bool) (c : Char) (s : List Char) :
    headIs p (c :: s) = p c := rfl

/-- What a text goes on with decides whether it starts with a class. -/
theorem headIs_append_of_ne_nil {p : Char → Bool} {s : List Char} (h : s ≠ []) (t : List Char) :
    headIs p (s ++ t) = headIs p s := by
  cases s with
  | nil => exact absurd rfl h
  | cons c s => rfl

/-- A greedy run of a class is the run after which the text does not go on with the class. -/
theorem span_iff {p : Char → Bool} {s run rest : List Char} :
    s.takeWhile p = run ∧ s.dropWhile p = rest ↔
      s = run ++ rest ∧ (∀ c ∈ run, p c) ∧ headIs p rest = false := by
  induction s generalizing run with
  | nil =>
    constructor
    · rintro ⟨rfl, rfl⟩
      simp
    · rintro ⟨h, -, -⟩
      simp_all
  | cons c s ih =>
    by_cases hc : p c
    · cases run with
      | nil =>
        simp only [List.takeWhile_cons_of_pos hc, List.dropWhile_cons_of_pos hc, List.nil_append]
        constructor
        · rintro ⟨h, -⟩
          simp at h
        · rintro ⟨rfl, -, h⟩
          simp [hc] at h
      | cons d run =>
        simp only [List.takeWhile_cons_of_pos hc, List.dropWhile_cons_of_pos hc, List.cons.injEq,
          List.cons_append, List.mem_cons, forall_eq_or_imp, and_assoc, ih]
        constructor
        · rintro ⟨rfl, rfl, hr, h⟩
          exact ⟨rfl, rfl, hc, hr, h⟩
        · rintro ⟨rfl, rfl, -, hr, h⟩
          exact ⟨rfl, rfl, hr, h⟩
    · simp only [List.takeWhile_cons_of_neg hc, List.dropWhile_cons_of_neg hc]
      constructor
      · rintro ⟨rfl, rfl⟩
        simp [hc]
      · rintro ⟨h, hr, -⟩
        cases run with
        | nil => exact ⟨rfl, by simpa using h⟩
        | cons d run =>
          simp only [List.cons_append, List.cons.injEq] at h
          exact absurd (h.1 ▸ hr d (by simp)) hc

/-- Two ways to cut a run of a class from a text are the same. -/
theorem run_unique {p : Char → Bool} {run run' rest rest' : List Char}
    (h : run ++ rest = run' ++ rest') (hr : ∀ c ∈ run, p c) (hr' : ∀ c ∈ run', p c)
    (hs : headIs p rest = false) (hs' : headIs p rest' = false) : run = run' ∧ rest = rest' := by
  obtain ⟨h1, h2⟩ := span_iff.mpr ⟨rfl, hr, hs⟩
  obtain ⟨h3, h4⟩ := span_iff.mpr ⟨h, hr', hs'⟩
  exact ⟨h1.symm.trans h3, h2.symm.trans h4⟩

end SelectorPath.Text
