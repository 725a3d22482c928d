import SelectorPath.CommandLine.Run

/-!
The input as bytes and as a text. It is read line by line, and each line is decoded on its own.
A line feed is one byte that is part of no other character, so the lines are those of the text,
and the input is a text exactly if all its lines are (`selectorsOfLines?_byteLines`).
-/

namespace SelectorPath.CommandLine

/-- The selectors that a text holds: its lines, trimmed, but for the empty ones. -/
def selectorsOfText (text : String) : List String :=
  (((text.toList.splitOn '\n').map Text.trim).filter fun line => !line.isEmpty).map String.ofList

/-! ## Characters as bytes -/

/-- The bytes of a text. -/
def utf8 (s : List Char) : List UInt8 := s.flatMap String.utf8EncodeChar

@[simp] theorem utf8_nil : utf8 [] = [] := rfl

@[simp] theorem utf8_cons (c : Char) (s : List Char) :
    utf8 (c :: s) = String.utf8EncodeChar c ++ utf8 s := rfl

@[simp] theorem utf8_append (s t : List Char) : utf8 (s ++ t) = utf8 s ++ utf8 t :=
  List.flatMap_append

theorem utf8_toByteArray (s : List Char) : (utf8 s).toByteArray = s.utf8Encode := rfl

/-- Bytes are decoded to the text that they encode. -/
theorem fromUTF8?_eq_some_iff {bytes : List UInt8} {text : String} :
    String.fromUTF8? bytes.toByteArray = some text ↔ bytes = utf8 text.toList := by
  have hencode : text.toByteArray = (utf8 text.toList).toByteArray := by
    rw [utf8_toByteArray, String.utf8Encode_toList]
  constructor
  · intro h
    unfold String.fromUTF8? at h
    split at h
    · obtain rfl := Option.some.inj h
      exact List.toByteArray_inj.mp hencode
    · contradiction
  · rintro rfl
    rw [← hencode, String.fromUTF8?, dif_pos text.isValidUTF8]
    rfl

/-- The bytes of a character that has several are above those of ASCII. -/
theorem lineFeed_ne_or (a : UInt8) {b : UInt8} (h : 128 ≤ b.toNat) : 10 ≠ a ||| b := by
  intro heq
  have hle : b.toNat ≤ (a ||| b).toNat := by
    rw [UInt8.toNat_or]
    exact Nat.right_le_or
  rw [← heq] at hle
  exact absurd (Nat.le_trans h hle) (by decide)

/-- The byte of a line feed is in no other character. -/
theorem lineFeed_notMem_utf8EncodeChar {c : Char} (h : c ≠ '\n') :
    10 ∉ String.utf8EncodeChar c := by
  rcases c.utf8Size_eq with h1 | h2 | h3 | h4
  · rw [String.utf8EncodeChar_eq_singleton h1, List.mem_singleton]
    intro heq
    have hsmall : c.toNat ≤ 127 := Char.utf8Size_eq_one_iff.mp h1
    have hval : c.toNat = 10 := by
      have hnat := congrArg UInt8.toNat heq
      rw [UInt32.toNat_toUInt8] at hnat
      change 10 = c.toNat % 256 at hnat
      omega
    exact h (Char.toNat_inj.mp hval)
  · rw [String.utf8EncodeChar_eq_cons_cons h2]
    simp only [List.mem_cons, List.not_mem_nil, or_false, not_or]
    exact ⟨lineFeed_ne_or _ (by decide), lineFeed_ne_or _ (by decide)⟩
  · rw [String.utf8EncodeChar_eq_cons_cons_cons h3]
    simp only [List.mem_cons, List.not_mem_nil, or_false, not_or]
    exact ⟨lineFeed_ne_or _ (by decide), lineFeed_ne_or _ (by decide), lineFeed_ne_or _ (by decide)⟩
  · rw [String.utf8EncodeChar_eq_cons_cons_cons_cons h4]
    simp only [List.mem_cons, List.not_mem_nil, or_false, not_or]
    exact ⟨lineFeed_ne_or _ (by decide), lineFeed_ne_or _ (by decide), lineFeed_ne_or _ (by decide),
      lineFeed_ne_or _ (by decide)⟩

/-! ## Lines -/

/-- A first part without a separator stays with the first of the parts. -/
theorem splitOn_append_of_notMem {α : Type} [DecidableEq α] {a : α} {front : List α}
    (h : a ∉ front) (rest : List α) :
    (front ++ rest).splitOn a = (rest.splitOn a).modifyHead (front ++ ·) := by
  induction front with
  | nil => cases hrest : rest.splitOn a <;> simp [hrest]
  | cons x front ih =>
    rw [List.mem_cons, not_or] at h
    rw [List.cons_append, List.splitOn_cons_eq_if_modifyHead, ih h.2,
      if_neg (by simpa using Ne.symm h.1), List.modifyHead_modifyHead]
    rfl

/-- Text and bytes have the same lines. -/
theorem splitOn_utf8 (s : List Char) : (utf8 s).splitOn 10 = (s.splitOn '\n').map utf8 := by
  induction s with
  | nil => rfl
  | cons c s ih =>
    rw [utf8_cons, List.splitOn_cons_eq_if_modifyHead]
    by_cases hc : c = '\n'
    · subst hc
      have hfeed : String.utf8EncodeChar '\n' = [10] := by decide
      rw [hfeed, List.singleton_append, List.splitOn_cons_eq_if_modifyHead]
      simp [ih]
    · rw [splitOn_append_of_notMem (lineFeed_notMem_utf8EncodeChar hc), ih, if_neg (by simpa using hc)]
      cases s.splitOn '\n' <;> simp

/-- The lines are the parts between the line feeds, but for an empty last one. -/
theorem splitOn_eq_byteLines (bytes : List UInt8) :
    bytes.splitOn 10 = byteLines bytes ∨ bytes.splitOn 10 = byteLines bytes ++ [[]] := by
  induction bytes with
  | nil => exact .inr rfl
  | cons byte rest ih =>
    rw [List.splitOn_cons_eq_if_modifyHead, byteLines]
    by_cases hbyte : byte = 10
    · simpa [hbyte] using ih
    · have hne := List.splitOn_ne_nil 10 rest
      rw [if_neg (by simpa using hbyte), if_neg hbyte]
      cases hlines : byteLines rest with
      | nil =>
        rw [hlines] at ih
        rcases ih with ih | ih
        · exact absurd ih hne
        · exact .inl (by simp [ih])
      | cons line more =>
        rw [hlines] at ih
        rcases ih with ih | ih
        · exact .inl (by simp [ih])
        · exact .inr (by simp [ih])

theorem utf8_intercalate (texts : List (List Char)) :
    [10].intercalate (texts.map utf8) = utf8 (['\n'].intercalate texts) := by
  induction texts with
  | nil => rfl
  | cons text rest ih =>
    cases rest with
    | nil => simp
    | cons next rest =>
      simp only [List.map_cons, List.intercalate_cons_cons] at ih ⊢
      rw [ih, utf8_append, utf8_append]
      rfl

/-! ## Selectors of lines -/

theorem selectorsOfLines?_utf8 (texts : List (List Char)) :
    selectorsOfLines? (texts.map utf8) =
      some (((texts.map Text.trim).filter fun line => !line.isEmpty).map String.ofList) := by
  induction texts with
  | nil => rfl
  | cons text rest ih =>
    have htext : String.fromUTF8? (utf8 text).toByteArray = some (String.ofList text) :=
      fromUTF8?_eq_some_iff.mpr (by rw [String.toList_ofList])
    rw [List.map_cons, selectorsOfLines?, htext, ih]
    simp only [Option.bind_eq_bind, Option.bind_some, String.toList_ofList, List.map_cons]
    by_cases hempty : (Text.trim text).isEmpty <;> simp [hempty]

/-- An empty line at the end holds no selector. -/
theorem selectorsOfLines?_append_nil (lines : List (List UInt8)) :
    selectorsOfLines? (lines ++ [[]]) = selectorsOfLines? lines := by
  induction lines with
  | nil => exact selectorsOfLines?_utf8 [[]]
  | cons line rest ih => rw [List.cons_append, selectorsOfLines?, selectorsOfLines?, ih]

/-- Lines that hold selectors are lines of text. -/
theorem exists_utf8_of_selectorsOfLines? {lines : List (List UInt8)} {selectors : List String}
    (h : selectorsOfLines? lines = some selectors) : ∃ texts : List (List Char), lines = texts.map utf8 := by
  induction lines generalizing selectors with
  | nil => exact ⟨[], rfl⟩
  | cons line rest ih =>
    simp only [selectorsOfLines?, Option.bind_eq_bind, Option.bind_eq_some_iff] at h
    obtain ⟨text, htext, others, hothers, -⟩ := h
    obtain ⟨texts, rfl⟩ := ih hothers
    exact ⟨text.toList :: texts, by rw [List.map_cons, ← fromUTF8?_eq_some_iff.mp htext]⟩

/-- Reading line by line gives the selectors of the whole text, and fails where the input is no
text. -/
theorem selectorsOfLines?_byteLines (input : ByteArray) :
    selectorsOfLines? (byteLines input.data.toList) =
      (String.fromUTF8? input).map selectorsOfText := by
  have hlines : selectorsOfLines? (byteLines input.data.toList) =
      selectorsOfLines? (input.data.toList.splitOn 10) := by
    rcases splitOn_eq_byteLines input.data.toList with h | h
    · rw [h]
    · rw [h, selectorsOfLines?_append_nil]
  have hinput : input = input.data.toList.toByteArray :=
    ByteArray.ext (by rw [List.data_toByteArray])
  rw [hlines]
  cases htext : String.fromUTF8? input with
  | some text =>
    rw [hinput, fromUTF8?_eq_some_iff] at htext
    rw [htext, splitOn_utf8, selectorsOfLines?_utf8]
    rfl
  | none =>
    cases hselectors : selectorsOfLines? (input.data.toList.splitOn 10) with
    | none => rfl
    | some selectors =>
      obtain ⟨texts, htexts⟩ := exists_utf8_of_selectorsOfLines? hselectors
      have hbytes : input.data.toList = utf8 (['\n'].intercalate texts) := by
        rw [← utf8_intercalate, ← htexts, List.intercalate_splitOn]
      have hvalid : String.fromUTF8? input = some (String.ofList (['\n'].intercalate texts)) := by
        rw [hinput, fromUTF8?_eq_some_iff, hbytes, String.toList_ofList]
      rw [htext] at hvalid
      contradiction

end SelectorPath.CommandLine
