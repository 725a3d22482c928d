import SelectorPath.Proofs.Json.Grammar

/-!
The printer of documents writes JSON: what it prints for a document is a text of that
document, whatever its strings hold and however deep it is.
-/

namespace SelectorPath.Json

open Text
open Quoted (hexValue?)
open XPath.Syntax (isNumeral)

/-! ## Strings -/

theorem hexValue?_hexDigit {n : Nat} (h : n < 16) : hexValue? (hexDigit n) = some n := by
  have hall : ∀ n < 16, hexValue? (hexDigit n) = some n := by decide
  exact hall n h

theorem hexQuad?_control {n : Nat} (h : n < 0x20) :
    hexQuad? '0' '0' (hexDigit (n / 16)) (hexDigit (n % 16)) = some n := by
  have hzero : hexValue? '0' = some 0 := rfl
  simp only [hexQuad?, hzero, hexValue?_hexDigit (show n / 16 < 16 by omega),
    hexValue?_hexDigit (Nat.mod_lt n (by decide)), Option.bind_eq_bind, Option.bind_some]
  congr 1
  omega

theorem eq_ofNat {c : Char} {n : Nat} (h : c.toNat = n) : c = Char.ofNat n := by
  rw [← h, Char.ofNat_toNat]

theorem escapeChar_text (c : Char) : CharText (escapeChar c) c := by
  unfold escapeChar
  split
  · next h => exact .short (by rw [h]; rfl)
  split
  · next h => exact .short (by rw [h]; rfl)
  next hquote hback =>
  split
  · next hcontrol =>
    split
    · next h => exact .short (by rw [eq_ofNat h]; rfl)
    split
    · next h => exact .short (by rw [h]; rfl)
    split
    · next h => exact .short (by rw [h]; rfl)
    split
    · next h => exact .short (by rw [eq_ofNat h]; rfl)
    split
    · next h => exact .short (by rw [h]; rfl)
    have htext := CharText.unicode (hexQuad?_control hcontrol) (by omega)
    rwa [Char.ofNat_toNat] at htext
  · next hcontrol => exact .plain (Nat.le_of_not_lt hcontrol) hquote hback

theorem flatMap_escapeChar_text (text : List Char) : CharsText (text.flatMap escapeChar) text := by
  induction text with
  | nil => exact .nil
  | cons c text ih => exact .cons (escapeChar_text c) ih

theorem renderString_text (text : String) : StringText (renderString text).toList text := by
  have htext : (renderString text).toList = '"' :: (text.toList.flatMap escapeChar ++ ['"']) := by
    simp [renderString]
  rw [htext]
  exact .mk (flatMap_escapeChar_text text.toList)

/-! ## Numbers -/

theorem eq_zero_of_head?_toDigits {n : Nat} (h : (Nat.toDigits 10 n).head? = some '0') :
    n = 0 := by
  induction n using Nat.strongRecOn with
  | ind n ih =>
    by_cases hn : n < 10
    · have hall : ∀ d < 10, some d.digitChar = some '0' → d = 0 := by decide
      rw [Nat.toDigits_of_lt_base hn] at h
      exact hall n hn h
    · -- The digits before the last are those of `n / 10`, so its first digit is that of `n`.
      have hpos : 0 < n / 10 := by omega
      have hsplit := Nat.toDigits_append_toDigits (b := 10) (by decide) hpos
        (Nat.mod_lt n (by decide))
      rw [Nat.div_add_mod] at hsplit
      rw [← hsplit, List.head?_append_of_ne_nil _ Nat.toDigits_ne_nil] at h
      have hzero := ih (n / 10) (by omega) h
      omega

theorem digitsText_toDigits (n : Nat) : DigitsText (Nat.toDigits 10 n) n where
  numerals _ := XPath.isNumeral_of_mem_toDigits
  value := XPath.natural?_toDigits n
  noLeadingZero h := by
    rw [eq_zero_of_head?_toDigits h]
    rfl

theorem toString_text (n : Int) : NumberText (toString n).toList n := by
  cases n with
  | ofNat m =>
    have htext : (toString (Int.ofNat m)).toList = Nat.toDigits 10 m := Nat.toList_repr
    rw [htext]
    exact .unsigned (digitsText_toDigits m)
  | negSucc m =>
    have htext : (toString (Int.negSucc m)).toList = '-' :: Nat.toDigits 10 (m + 1) := by
      rw [← Nat.toList_repr]
      exact String.toList_append
    rw [htext]
    exact .negative (digitsText_toDigits (m + 1))

/-! ## Documents -/

theorem lineStart_gap (depth : Nat) : Gap (lineStart depth).toList := by
  intro c hc
  have hcases : c = '\n' ∨ c = ' ' := by
    simp only [lineStart, String.toList_append, String.toList_ofList, List.mem_append] at hc
    rcases hc with hline | hblank
    · exact .inl (by simpa using hline)
    · exact .inr (List.eq_of_mem_replicate hblank)
  rcases hcases with rfl | rfl <;> rfl

/-- Parts on lines of their own, where `more` writes those after the first. -/
theorem partsText_lines {α : Type} {Part : List Char → α → Prop} (part : α → List Char)
    (more : List α → List Char) {line last : List Char} (hline : Gap line) (hlast : Gap last)
    (hnil : more [] = [])
    (hcons : ∀ a rest, more (a :: rest) = ',' :: (line ++ (part a ++ more rest)))
    {a : α} {rest : List α} (h : ∀ b ∈ a :: rest, Part (part b) b) :
    PartsText Part (line ++ (part a ++ (more rest ++ last))) (a :: rest) := by
  induction rest generalizing a with
  | nil =>
    rw [hnil, List.nil_append]
    exact .last hline (h a List.mem_cons_self) hlast
  | cons b rest ih =>
    obtain ⟨ha, hrest⟩ := List.forall_mem_cons.mp h
    have hparts := PartsText.cons hline ha (w := []) (List.forall_mem_nil _) (ih hrest)
    rw [hcons]
    simpa using hparts

/-- The text of a field of an object. -/
def prettyField (depth : Nat) (field : String × Json) : List Char :=
  (renderString field.1).toList ++ ':' :: ([' '] ++ (pretty depth field.2).toList)

theorem prettyField_text {depth : Nat} {field : String × Json}
    (h : ValueText (pretty depth field.2).toList field.2) :
    FieldText (prettyField depth field) field :=
  .mk (v := []) (renderString_text field.1) (List.forall_mem_nil _)
    (List.forall_mem_singleton.mpr rfl) h

theorem pretty_array (depth : Nat) (item : Json) (rest : List Json) :
    (pretty depth (.array (item :: rest))).toList =
      '[' :: (((lineStart (depth + 1)).toList ++ ((pretty (depth + 1) item).toList ++
        ((prettyItems depth rest).toList ++ (lineStart depth).toList))) ++ [']']) := by
  simp [pretty]

theorem pretty_object (depth : Nat) (field : String × Json) (rest : List (String × Json)) :
    (pretty depth (.object (field :: rest))).toList =
      '\x7b' :: (((lineStart (depth + 1)).toList ++ (prettyField (depth + 1) field ++
        ((prettyFields depth rest).toList ++ (lineStart depth).toList))) ++ ['\x7d']) := by
  simp [pretty, prettyField]

theorem pretty_text (depth : Nat) (j : Json) : ValueText (pretty depth j).toList j := by
  induction j using induction_children generalizing depth with
  | h j ih =>
    cases j with
    | null => exact .null
    | number n => exact .number (toString_text n)
    | string text => exact .string (renderString_text text)
    | array items =>
      cases items with
      | nil =>
        have htext := ValueText.array (s := []) (.empty (List.forall_mem_nil _))
        simpa [pretty] using htext
      | cons item rest =>
        rw [pretty_array]
        refine .array (.parts ?_)
        apply partsText_lines (fun j => (pretty (depth + 1) j).toList)
          (fun rest => (prettyItems depth rest).toList) (lineStart_gap _) (lineStart_gap _)
        · simp [prettyItems]
        · intro item rest
          simp [prettyItems]
        · intro j hj
          exact ih j hj (depth + 1)
    | object fields =>
      cases fields with
      | nil =>
        have htext := ValueText.object (s := []) (.empty (List.forall_mem_nil _))
        simpa [pretty] using htext
      | cons field rest =>
        rw [pretty_object]
        refine .object (.parts ?_)
        apply partsText_lines (prettyField (depth + 1))
          (fun rest => (prettyFields depth rest).toList) (lineStart_gap _) (lineStart_gap _)
        · simp [prettyFields]
        · intro field rest
          simp [prettyFields, prettyField]
        · intro field hfield
          exact prettyField_text (ih field.2 (List.mem_map_of_mem hfield) (depth + 1))

/-- What is printed for a document is a text of it. -/
theorem render_text (j : Json) : DocumentText j.render.toList j :=
  ⟨[], j.render.toList, [], by simp, List.forall_mem_nil _, pretty_text 0 j, List.forall_mem_nil _⟩

end SelectorPath.Json
