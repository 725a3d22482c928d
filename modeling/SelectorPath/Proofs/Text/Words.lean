import SelectorPath.Proofs.Text.Classes

/-!
The words of a text. The main statement is `blank_word_infix_iff`: a word with blanks around it
stands in a line of words with blanks around them if and only if it is one of the words.
-/

namespace SelectorPath.Text

/-- The words of a text, with blanks between them. -/
def words (isBlank : Char → Bool) (s : List Char) : List (List Char) :=
  (s.splitOnP isBlank).filter fun word => !word.isEmpty

theorem splitOnP_blank {isBlank : Char → Bool} {s : List Char} :
    ∀ w ∈ s.splitOnP isBlank, ∀ c ∈ w, isBlank c = false := by
  induction s with
  | nil => simp
  | cons x s ih =>
    rw [List.splitOnP_cons_eq_if_modifyHead]
    split
    · exact List.forall_mem_cons.mpr ⟨by simp, ih⟩
    · next hx =>
      cases hsplit : s.splitOnP isBlank with
      | nil => simp
      | cons first rest =>
        rw [hsplit] at ih
        obtain ⟨hfirst, hrest⟩ := List.forall_mem_cons.mp ih
        refine List.forall_mem_cons.mpr ⟨?_, hrest⟩
        exact List.forall_mem_cons.mpr ⟨by simpa using hx, hfirst⟩

/-- A word is not empty, and there is no blank in it. -/
theorem of_mem_words {isBlank : Char → Bool} {s w : List Char} (h : w ∈ words isBlank s) :
    w ≠ [] ∧ ∀ c ∈ w, isBlank c = false := by
  obtain ⟨hsplit, hne⟩ := List.mem_filter.mp h
  exact ⟨by simpa using hne, splitOnP_blank w hsplit⟩

/-- Which words a text has depends on which of its own characters are blanks. -/
theorem words_congr {p q : Char → Bool} {s : List Char} (h : ∀ c ∈ s, p c = q c) :
    words p s = words q s := by
  have hsplit : s.splitOnP p = s.splitOnP q := by
    induction s with
    | nil => simp
    | cons x s ih =>
      obtain ⟨hx, hs⟩ := List.forall_mem_cons.mp h
      simp only [List.splitOnP_cons_eq_if_modifyHead, hx, ih hs]
  rw [words, words, hsplit]

/-! ## Words with blanks around them -/

section Blank

variable {b : Char}

/-- What starts with a blank starts after a text without blanks, or in what follows it. -/
theorem infix_append_of_notMem {u x y : List Char} (h : b ∉ u) :
    b :: x <:+: u ++ y ↔ b :: x <:+: y := by
  induction u with
  | nil => rfl
  | cons c u ih =>
    obtain ⟨hc, hu⟩ : b ≠ c ∧ b ∉ u := by simpa using h
    rw [List.cons_append, List.infix_cons_iff, ih hu]
    refine or_iff_right fun hprefix => hc ?_
    exact (List.cons_prefix_cons.mp hprefix).1

/-- Up to the first blank two texts with a common start agree. -/
theorem prefix_append_blank_iff {w v y : List Char} (hw : b ∉ w) (hv : b ∉ v) :
    w ++ [b] <+: v ++ b :: y ↔ w = v := by
  induction w generalizing v with
  | nil =>
    cases v with
    | nil => simp
    | cons d v =>
      have hd : b ≠ d := fun h => hv (by simp [h])
      simp [List.cons_prefix_cons, hd]
  | cons c w ih =>
    obtain ⟨hc, hw⟩ : b ≠ c ∧ b ∉ w := by simpa using hw
    cases v with
    | nil =>
      have hcb : c ≠ b := fun h => hc h.symm
      simp [List.cons_prefix_cons, hcb]
    | cons d v =>
      have hv : b ∉ v := fun h => hv (List.mem_cons_of_mem d h)
      simp only [List.cons_append, List.cons_prefix_cons, ih hw hv, List.cons.injEq]

theorem blank_word_infix_cons {w v y : List Char} (hw : b ∉ w) (hv : b ∉ v) :
    b :: (w ++ [b]) <:+: b :: (v ++ b :: y) ↔ w = v ∨ b :: (w ++ [b]) <:+: b :: y := by
  rw [List.infix_cons_iff, List.cons_prefix_cons, infix_append_of_notMem hv,
    prefix_append_blank_iff hw hv]
  simp

theorem blank_word_infix_iff {w : List Char} {ws : List (List Char)} (hne : w ≠ [])
    (hw : b ∉ w) (hws : ∀ v ∈ ws, b ∉ v) :
    b :: (w ++ [b]) <:+: b :: ([b].intercalate ws ++ [b]) ↔ w ∈ ws := by
  have hlength {y : List Char} (hy : y.length ≤ 2) : ¬b :: (w ++ [b]) <:+: y := by
    intro h
    have hle := h.length_le
    have hpos := List.length_pos_of_ne_nil hne
    simp only [List.length_cons, List.length_append, List.length_nil] at hle
    omega
  induction ws with
  | nil => simpa using hlength (by simp)
  | cons v ws ih =>
    obtain ⟨hv, hws⟩ := List.forall_mem_cons.mp hws
    have hrest := ih hws
    refine Iff.trans ?_ ((or_congr_right hrest).trans List.mem_cons.symm)
    cases ws with
    | nil =>
      have hone : ¬b :: (w ++ [b]) <:+: [b] := hlength (by simp)
      have htwo : ¬b :: (w ++ [b]) <:+: [b, b] := hlength (by simp)
      simpa [hone, htwo] using blank_word_infix_cons (y := []) hw hv
    | cons next ws =>
      have hcons := blank_word_infix_cons (y := [b].intercalate (next :: ws) ++ [b]) hw hv
      simpa using hcons

end Blank

end SelectorPath.Text
