import SelectorPath.Text.Space

/-!
Quoted values. A backslash and one to six hexadecimal digits stand for the character with
that code point, and one blank after the digits belongs to them; a backslash and any other
character stand for that character.
-/

namespace SelectorPath.Quoted

/-- The value of a hexadecimal digit. -/
def hexValue? (c : Char) : Option Nat :=
  if '0' ≤ c ∧ c ≤ '9' then some (c.toNat - '0'.toNat)
  else if 'a' ≤ c ∧ c ≤ 'f' then some (c.toNat - 'a'.toNat + 10)
  else if 'A' ≤ c ∧ c ≤ 'F' then some (c.toNat - 'A'.toNat + 10)
  else none

/-- The character with a code point. Zero, surrogates and what lies above the last code
point give the replacement character. -/
def ofCodePoint (n : Nat) : Char :=
  if n ≠ 0 ∧ n.isValidChar then Char.ofNat n else '\ufffd'

/-- The value of the hexadecimal digits that follow digits of value `n`, at most `limit` of
them, and the text after them. -/
def hexDigits (n : Nat) : (limit : Nat) → List Char → Nat × List Char
  | limit + 1, c :: rest =>
    match hexValue? c with
    | some d => hexDigits (n * 16 + d) limit rest
    | none => (n, c :: rest)
  | _, s => (n, s)

/-- The text after at most one blank. -/
def skipBlank : List Char → List Char
  | [] => []
  | c :: rest => if Text.isBlank c then rest else c :: rest

/-- The character that an escape stands for, and the text after it. The backslash was read. -/
def escape : List Char → Option (Char × List Char)
  | [] => none
  | c :: rest =>
    match hexValue? c with
    | none => some (c, rest)
    | some d =>
      let (n, rest) := hexDigits d 5 rest
      some (ofCodePoint n, skipBlank rest)

theorem hexDigits_length (n limit : Nat) (s : List Char) :
    (hexDigits n limit s).2.length ≤ s.length := by
  induction limit generalizing n s with
  | zero => simp [hexDigits]
  | succ limit ih =>
    cases s with
    | nil => simp [hexDigits]
    | cons c s =>
      simp only [hexDigits]
      split
      · exact Nat.le_succ_of_le (ih _ s)
      · exact Nat.le_refl _

theorem skipBlank_length (s : List Char) : (skipBlank s).length ≤ s.length := by
  cases s with
  | nil => simp [skipBlank]
  | cons c s =>
    simp only [skipBlank]
    split <;> simp

theorem escape_length {s rest : List Char} {c : Char} (h : escape s = some (c, rest)) :
    rest.length < s.length := by
  cases s with
  | nil => simp [escape] at h
  | cons d s =>
    simp only [escape] at h
    split at h
    · simp at h; simp [← h.2]
    · next v _ =>
      simp only [Option.some.injEq, Prod.mk.injEq] at h
      have h1 := skipBlank_length (hexDigits v 5 s).2
      have h2 := hexDigits_length v 5 s
      rw [← h.2]
      simp only [List.length_cons]
      omega

/-- The text with its escapes resolved. A backslash at the end stands for nothing. -/
def unescape : List Char → List Char
  | [] => []
  | c :: rest =>
    if c = '\\' then
      match _h : escape rest with
      | none => []
      | some (d, after) => d :: unescape after
    else c :: unescape rest
termination_by s => s.length
decreasing_by
  · exact Nat.lt_succ_of_lt (escape_length _h)
  · simp

/-- The value of a text in quotes. -/
def value (quoted : List Char) : String := String.ofList (unescape quoted.tail.dropLast)

end SelectorPath.Quoted
