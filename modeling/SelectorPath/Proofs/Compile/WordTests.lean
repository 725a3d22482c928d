import SelectorPath.Proofs.Compile.Literals

/-!
The test for a word of an attribute. White space is normalized as XPath says, by leaving it out at
the ends and putting one blank for each run of it (`squeeze`), and a word is a piece of the text
that has no white space and cannot be made longer (`IsPiece`). The main statement is
`AttributeTest.hasWord_eval?_iff_isPiece`: the test, which looks for a part of the text, finds
words.
-/

namespace SelectorPath

namespace Text

/-! ## Words are pieces -/

section Pieces

variable {isBlank : Char → Bool} {s w x y : List Char} {b : Char}

/-- A part of a text that is not empty, has no blanks and cannot be made longer without one. -/
def IsPiece (isBlank : Char → Bool) (s w : List Char) : Prop :=
  w ≠ [] ∧ (∀ c ∈ w, isBlank c = false) ∧ ∃ before after, s = before ++ w ++ after ∧
    (∀ c ∈ before.getLast?, isBlank c) ∧ ∀ c ∈ after.head?, isBlank c

theorem words_nil : words isBlank [] = [] := by
  simp [words]

/-- A blank separates words. -/
theorem words_append_cons (hb : isBlank b) (x y : List Char) :
    words isBlank (x ++ b :: y) = words isBlank x ++ words isBlank y := by
  simp [words, List.splitOnP_append_cons x y hb]

theorem words_cons (hb : isBlank b) (y : List Char) :
    words isBlank (b :: y) = words isBlank y := by
  simpa [words_nil] using words_append_cons hb [] y

/-- A text without blanks is its only word. -/
theorem words_of_forall (hne : w ≠ []) (h : ∀ c ∈ w, isBlank c = false) :
    words isBlank w = [w] := by
  simp [words, List.splitOnP_eq_singleton h, hne]

/-- A text has no blanks, or a first one. -/
theorem forall_or_first (isBlank : Char → Bool) (s : List Char) :
    (∀ c ∈ s, isBlank c = false) ∨
      ∃ x b y, s = x ++ b :: y ∧ (∀ c ∈ x, isBlank c = false) ∧ isBlank b := by
  induction s with
  | nil => exact .inl (by simp)
  | cons c s ih =>
    cases hc : isBlank c with
    | true => exact .inr ⟨[], c, s, rfl, by simp, hc⟩
    | false =>
      rcases ih with hs | ⟨x, b, y, rfl, hx, hb⟩
      · exact .inl (List.forall_mem_cons.mpr ⟨hc, hs⟩)
      · exact .inr ⟨c :: x, b, y, rfl, List.forall_mem_cons.mpr ⟨hc, hx⟩, hb⟩

theorem isPiece_of_mem_words (h : w ∈ words isBlank s) : IsPiece isBlank s w := by
  obtain ⟨hne, hblank⟩ := of_mem_words h
  refine ⟨hne, hblank, ?_⟩
  induction hn : s.length using Nat.strongRecOn generalizing s with
  | ind n ih =>
  rcases forall_or_first isBlank s with hs | ⟨x, b, y, rfl, hx, hb⟩
  · have hsne : s ≠ [] := by
      rintro rfl
      simp [words_nil] at h
    obtain rfl : w = s := by simpa [words_of_forall hsne hs] using h
    exact ⟨[], [], by simp⟩
  · rw [words_append_cons hb, List.mem_append] at h
    rcases h with hleft | hright
    · have hxne : x ≠ [] := by
        rintro rfl
        simp [words_nil] at hleft
      obtain rfl : w = x := by simpa [words_of_forall hxne hx] using hleft
      exact ⟨[], b :: y, by simp [hb]⟩
    · have hlt : y.length < n := by
        rw [← hn, List.length_append, List.length_cons]
        omega
      obtain ⟨before, after, rfl, hbefore, hafter⟩ := ih y.length hlt hright rfl
      refine ⟨x ++ b :: before, after, by simp, ?_, hafter⟩
      intro c hc
      cases before with
      | nil => simp_all
      | cons d before => exact hbefore c (by simpa using hc)

theorem mem_words_of_isPiece (h : IsPiece isBlank s w) : w ∈ words isBlank s := by
  obtain ⟨hne, hblank, before, after, rfl, hbefore, hafter⟩ := h
  have hright : w ∈ words isBlank (w ++ after) := by
    cases after with
    | nil => simp [words_of_forall hne hblank]
    | cons b after => simp [words_append_cons (hafter b rfl), words_of_forall hne hblank]
  rcases List.eq_nil_or_concat before with rfl | ⟨before, b, rfl⟩
  · exact hright
  · have hb : isBlank b := hbefore b (by simp)
    rw [List.concat_eq_append, List.append_assoc, List.append_assoc, List.singleton_append,
      words_append_cons hb]
    exact List.mem_append_right _ hright

/-- The words of a text are its pieces. -/
theorem mem_words_iff_isPiece : w ∈ words isBlank s ↔ IsPiece isBlank s w :=
  ⟨isPiece_of_mem_words, mem_words_of_isPiece⟩

end Pieces

/-! ## Normal white space -/

section Normalization

variable {isBlank : Char → Bool}

/-- Each run of blanks becomes one; `inRun` says that the last character was a blank. -/
def squeeze (isBlank : Char → Bool) : (inRun : Bool) → List Char → List Char
  | _, [] => []
  | inRun, c :: rest =>
    if isBlank c then (if inRun then [] else [' ']) ++ squeeze isBlank true rest
    else c :: squeeze isBlank false rest

/-- A text without the blanks at its ends. -/
def strip (isBlank : Char → Bool) (s : List Char) : List Char :=
  (s.dropWhile isBlank).rdropWhile isBlank

theorem squeeze_append {w : List Char} (h : ∀ c ∈ w, isBlank c = false) (hne : w ≠ [])
    (inRun : Bool) (s : List Char) : squeeze isBlank inRun (w ++ s) = w ++ squeeze isBlank false s := by
  induction w generalizing inRun with
  | nil => exact absurd rfl hne
  | cons c w ih =>
    obtain ⟨hc, hw⟩ := List.forall_mem_cons.mp h
    cases w with
    | nil => simp [squeeze, hc]
    | cons d w => simpa [squeeze, hc] using ih hw (List.cons_ne_nil d w) false

theorem squeeze_blanks {w : List Char} (h : ∀ c ∈ w, isBlank c) (s : List Char) :
    squeeze isBlank true (w ++ s) = squeeze isBlank true s := by
  induction w with
  | nil => rfl
  | cons c w ih =>
    obtain ⟨hc, hw⟩ := List.forall_mem_cons.mp h
    simpa [squeeze, hc] using ih hw

/-- After a blank, a text that does not start with one is squeezed as at the start. -/
theorem squeeze_of_head {s : List Char} (h : headIs isBlank s = false) (inRun : Bool) :
    squeeze isBlank inRun s = squeeze isBlank false s := by
  cases s with
  | nil => rfl
  | cons c s =>
    rw [headIs_cons] at h
    simp [squeeze, h]

/-- A text that neither starts nor ends with a blank. -/
structure Stripped (isBlank : Char → Bool) (s : List Char) : Prop where
  first : headIs isBlank s = false
  last : ∀ c ∈ s.getLast?, isBlank c = false

theorem strip_stripped (isBlank : Char → Bool) (s : List Char) :
    Stripped isBlank (strip isBlank s) := by
  constructor
  · obtain ⟨rest, hrest⟩ := List.rdropWhile_prefix isBlank (s.dropWhile isBlank)
    obtain ⟨-, -, hfirst⟩ := (span_iff (p := isBlank) (s := s)).mp ⟨rfl, rfl⟩
    by_cases hne : strip isBlank s = []
    · rw [hne]
      rfl
    · rw [← hrest] at hfirst
      rwa [← headIs_append_of_ne_nil hne rest]
  · intro c hc
    obtain ⟨hne, hlast⟩ := List.mem_getLast?_eq_getLast hc
    have hnot := List.rdropWhile_last_not isBlank _ hne
    rw [hlast]
    simpa [strip] using hnot

theorem words_dropWhile (s : List Char) :
    words isBlank (s.dropWhile isBlank) = words isBlank s := by
  induction s with
  | nil => rfl
  | cons c s ih =>
    cases hc : isBlank c with
    | true => rw [List.dropWhile_cons_of_pos hc, ih, words_cons hc]
    | false => rw [List.dropWhile_cons_of_neg (by simp [hc])]

theorem words_rdropWhile (s : List Char) :
    words isBlank (s.rdropWhile isBlank) = words isBlank s := by
  induction s using List.reverseRecOn with
  | nil => rfl
  | append_singleton s c ih =>
    rw [List.rdropWhile_concat]
    split
    · next hc => rw [ih, words_append_cons hc, words_nil, List.append_nil]
    · rfl

/-- A text that is not empty and does not start with a blank has words. -/
theorem words_ne_nil {s : List Char} (hne : s ≠ []) (h : headIs isBlank s = false) :
    words isBlank s ≠ [] := by
  rcases forall_or_first isBlank s with hs | ⟨x, b, y, rfl, hx, hb⟩
  · simp [words_of_forall hne hs]
  · have hxne : x ≠ [] := by
      rintro rfl
      simp [hb] at h
    simp [words_append_cons hb, words_of_forall hxne hx]

/-- Between its words, a stripped text has runs of blanks, each of which becomes one. -/
theorem squeeze_of_stripped {s : List Char} (h : Stripped isBlank s) :
    squeeze isBlank false s = [' '].intercalate (words isBlank s) := by
  induction hn : s.length using Nat.strongRecOn generalizing s with
  | ind n ih =>
  rcases forall_or_first isBlank s with hs | ⟨x, b, y, rfl, hx, hb⟩
  · cases s with
    | nil => simp [squeeze, words_nil]
    | cons c s =>
      have hsqueeze := squeeze_append hs (List.cons_ne_nil c s) false []
      rw [words_of_forall (List.cons_ne_nil c s) hs]
      simpa [squeeze] using hsqueeze
  · have hxne : x ≠ [] := by
      rintro rfl
      have hfirst := h.first
      simp [hb] at hfirst
    obtain ⟨hy, hrun, hfirst⟩ := (span_iff (p := isBlank) (s := y)).mp ⟨rfl, rfl⟩
    generalize y.takeWhile isBlank = run at hy hrun
    have hwords : words isBlank y = words isBlank (y.dropWhile isBlank) := (words_dropWhile y).symm
    generalize y.dropWhile isBlank = rest at hy hfirst hwords
    subst hy
    -- The run of blanks ends at a character, as the text does not end with a blank.
    have hrestne : rest ≠ [] := by
      rintro rfl
      have hall : ∀ c ∈ b :: run, isBlank c = true := List.forall_mem_cons.mpr ⟨hb, hrun⟩
      have hlast := h.last ((b :: run).getLast (List.cons_ne_nil b run))
        (by simp [List.getLast?_eq_some_getLast])
      simp [hall _ (List.getLast_mem _)] at hlast
    have hstripped : Stripped isBlank rest := by
      refine ⟨hfirst, fun c hc => h.last c ?_⟩
      rw [← List.cons_append, ← List.append_assoc, List.getLast?_append_of_ne_nil _ hrestne]
      exact hc
    have hlt : rest.length < n := by
      rw [← hn]
      simp only [List.length_append, List.length_cons]
      omega
    have hsqueeze : squeeze isBlank false (b :: (run ++ rest)) =
        ' ' :: squeeze isBlank false rest := by
      simp [squeeze, hb, squeeze_blanks hrun, squeeze_of_head hfirst]
    rw [squeeze_append hx hxne, hsqueeze, words_append_cons hb, words_of_forall hxne hx, hwords,
      List.singleton_append, List.intercalate_cons_of_ne_nil (words_ne_nil hrestne hfirst),
      ih _ hlt hstripped rfl]
    simp

theorem squeeze_strip (isBlank : Char → Bool) (s : List Char) :
    squeeze isBlank false (strip isBlank s) = [' '].intercalate (words isBlank s) := by
  rw [squeeze_of_stripped (strip_stripped isBlank s), strip, words_rdropWhile, words_dropWhile]

end Normalization

end Text

open Text XPath Syntax

/-- White space is normalized by leaving it out at the ends and squeezing it between the words. -/
theorem XPath.normalizeSpace_eq (s : List Char) :
    normalizeSpace s = squeeze isXmlSpace false (strip isXmlSpace s) :=
  (squeeze_strip isXmlSpace s).symm

/-- At an element, the test for a word without white space looks for the word with blanks around it
in the attribute with normal white space and blanks around that. It holds if and only if the word is
one of the pieces between the white space of the attribute, of which an absent one has none. Where
the attribute has a name, this is what the text of the test says. -/
theorem AttributeTest.hasWord_eval?_iff_isPiece {doc : Document} {context : Context} {a : Address}
    (hnode : context.node = .element a) (ha : doc.Has a) (name : String) {word : String}
    (hne : word ≠ "") (hspace : ∀ c ∈ word.toList, isXmlSpace c = false) :
    ∃ b, (hasWord (.attributeNamed name) word).tree.eval? doc context = some (.boolean b) ∧
      (b = true ↔ " ".toList ++ word.toList ++ " ".toList <:+: " ".toList ++
        squeeze isXmlSpace false (strip isXmlSpace ((doc.attribute? a name).getD "").toList) ++
        " ".toList) ∧
      (b = true ↔ IsPiece isXmlSpace ((doc.attribute? a name).getD "").toList word.toList) ∧
      (IsName name → Tree.ofText? (hasWord (.attributeNamed name) word).render =
        some (hasWord (.attributeNamed name) word).tree) := by
  obtain ⟨v, hv, hstands⟩ := eval?_attributeNamed hnode ha name
  have heval := eval?_hasWord hv word
  rw [hstands.toText] at heval
  refine ⟨_, heval, ?_, ?_, fun hname => ?_⟩
  · rw [decide_eq_true_iff, normalizeSpace_eq]
    simp
  · rw [decide_eq_true_iff, infix_normalizeSpace_iff (by simpa using hne) hspace]
    exact mem_words_iff_isPiece
  · apply Expr.ofText?_render
    apply hasWord_isTerm
    exact hname

/-- The second of two words, which the first one ends with, is found between a tab and a line feed;
it is not found where there is no attribute. -/
theorem AttributeTest.hasWord_eval?_iff_isPiece_second :
    let doc : Document := ⟨.mk "p" (AList.singleton "class" " ab\tb\n") []⟩
    let context : Context := ⟨.element [], 1, 1⟩
    doc.Has [] ∧ (∀ c ∈ "b".toList, isXmlSpace c = false) ∧
      (hasWord (.attributeNamed "class") "b").tree.eval? doc context = some (.boolean true) ∧
      (hasWord (.attributeNamed "id") "b").tree.eval? doc context = some (.boolean false) := by
  intro doc context
  have hnode : context.node = .element [] := rfl
  have hhas : doc.Has [] := rfl
  have hspace : ∀ c ∈ "b".toList, isXmlSpace c = false := by simp [isXmlSpace]
  obtain ⟨found, hfound, -, hpiece, -⟩ :=
    hasWord_eval?_iff_isPiece hnode hhas "class" (by decide) hspace
  obtain ⟨missed, hmissed, -, habsent, -⟩ :=
    hasWord_eval?_iff_isPiece hnode hhas "id" (by decide) hspace
  have hsecond : IsPiece isXmlSpace " ab\tb\n".toList "b".toList :=
    ⟨by decide, hspace, " ab\t".toList, "\n".toList, by decide, by simp [isXmlSpace],
      by simp [isXmlSpace]⟩
  have hnone : ¬IsPiece isXmlSpace "".toList "b".toList := by
    rintro ⟨-, -, before, after, heq, -⟩
    simp at heq
  refine ⟨hhas, hspace, ?_, ?_⟩
  · rw [hfound, hpiece.mpr hsecond]
  · rw [hmissed, Bool.eq_false_iff.mpr fun h => hnone (habsent.mp h)]

end SelectorPath
