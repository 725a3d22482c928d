import SelectorPath.Proofs.Compile.Meaning

/-!
Tests of attributes that are compiled to a constant. That is done for every test that no attribute
passes, and besides for words that have white space but no blanks, which the attribute with just that
value has (`AttributeTest.term_eq_constFalse_iff_matchesNothing`).
-/

namespace SelectorPath

open Text XPath

namespace Text

theorem isSpace_of_isBlank {c : Char} (h : isBlank c) : isSpace c := by
  have hblanks : ∀ x ∈ " \t\n\x0c\r".toList, isSpace x := forall_mem_of_all rfl
  refine hblanks c ?_
  simpa [isBlank, or_assoc] using h

/-- A text is the only word of itself if it is one. -/
theorem mem_words_self_iff {isBlank : Char → Bool} {s : List Char} :
    s ∈ words isBlank s ↔ s ≠ [] ∧ ∀ c ∈ s, isBlank c = false := by
  constructor
  · exact of_mem_words
  · rintro ⟨hne, hblank⟩
    have hsplit : s.splitOnP isBlank = [s] :=
      List.splitOnP_eq_singleton fun c hc => by simpa using hblank c hc
    simp [words, hsplit, hne]

end Text

namespace AttributeOperator

/-- No text compares with a value. -/
def MatchesNothing (operator : AttributeOperator) (value : String) : Prop :=
  ∀ text, ¬operator.Compares hasWord text value

theorem hasWord_self_iff {word : String} :
    hasWord word word ↔ word ≠ "" ∧ ∀ c ∈ word.toList, isBlank c = false := by
  rw [hasWord, mem_words_self_iff, Ne, String.toList_eq_nil_iff]

/-- If some text compares with a value, the value itself does. -/
theorem compares_self {operator : AttributeOperator} {text value : String}
    (h : operator.Compares hasWord text value) : operator.Compares hasWord value value := by
  cases operator with
  | equals => rfl
  | includes => exact mem_words_self_iff.mpr (of_mem_words h)
  | dashMatch => exact .inl rfl
  | startsWith => exact ⟨h.1, List.prefix_rfl⟩
  | endsWith => exact ⟨h.1, List.suffix_rfl⟩
  | contains => exact ⟨h.1, List.infix_rfl⟩

theorem matchesNothing_iff_self {operator : AttributeOperator} {value : String} :
    operator.MatchesNothing value ↔ ¬operator.Compares hasWord value value :=
  ⟨fun h => h value, fun h _ hcompares => h (compares_self hcompares)⟩

/-- Nothing has an empty word or a word with blanks, and nothing compares with an empty part. -/
theorem matchesNothing_iff (operator : AttributeOperator) (value : String) :
    operator.MatchesNothing value ↔
      (value = "" ∧ operator ∈ [.includes, .startsWith, .endsWith, .contains]) ∨
        (operator = .includes ∧ ∃ c ∈ value.toList, isBlank c) := by
  rw [matchesNothing_iff_self]
  cases operator with
  | equals | dashMatch => simp [Compares]
  | includes =>
    rw [Compares, hasWord_self_iff]
    simp [Classical.or_iff_not_imp_left]
  | startsWith | endsWith | contains => simp [Compares]

end AttributeOperator

namespace AttributeTest

theorem term_eq_constFalse_iff (name : String) (operator : AttributeOperator) (value : String) :
    (compare name operator value).term = .call .constFalse [] ↔ isVacuous operator value := by
  rw [term]
  split
  · next h => simp [h]
  · next h =>
    refine iff_of_false ?_ h
    cases operator <;> simp [comparison, hasWord]

/-- Words with white space count as vacuous, also if they have no blanks. -/
theorem isVacuous_iff (operator : AttributeOperator) (value : String) :
    isVacuous operator value ↔
      operator.MatchesNothing value ∨ (operator = .includes ∧ ¬BlankIfSpaced value) := by
  rw [AttributeOperator.matchesNothing_iff]
  cases operator with
  | equals | dashMatch => simp [isVacuous]
  | startsWith | endsWith | contains => simp [isVacuous]
  | includes =>
    simp only [isVacuous, Bool.or_eq_true, String.isEmpty_iff, List.any_eq_true]
    constructor
    · rintro (hempty | hspace)
      · exact .inl (.inl ⟨hempty, by decide⟩)
      · by_cases hblank : ∃ c ∈ value.toList, isBlank c
        · exact .inl (.inr ⟨trivial, hblank⟩)
        · exact .inr ⟨trivial, fun h => hblank (h hspace)⟩
    · rintro ((⟨hempty, -⟩ | ⟨-, c, hc, hblank⟩) | ⟨-, hword⟩)
      · exact .inl hempty
      · exact .inr ⟨c, hc, isSpace_of_isBlank hblank⟩
      · exact .inr (Classical.not_imp.mp hword).1

/-- A word with white space but no blanks is a word of itself. -/
theorem hasWord_of_not_blankIfSpaced {word : String} (h : ¬BlankIfSpaced word) :
    SelectorPath.hasWord word word := by
  obtain ⟨⟨c, hc, -⟩, hblank⟩ := Classical.not_imp.mp h
  refine AttributeOperator.hasWord_self_iff.mpr ⟨?_, fun d hd => ?_⟩
  · rintro rfl
    simp at hc
  · cases hd' : isBlank d with
    | false => rfl
    | true => exact absurd ⟨d, hd, hd'⟩ hblank

/-- A test is compiled to `false()` if no attribute passes it, and besides if it asks for a word with
white space but no blanks. Just in this case there is an attribute that passes it. No attribute
passes a test for an empty part, for an empty word, or for a word with blanks. -/
theorem term_eq_constFalse_iff_matchesNothing (name : String) (operator : AttributeOperator)
    (value : String) :
    ((compare name operator value).term = .call .constFalse [] ↔
        operator.MatchesNothing value ∨ (operator = .includes ∧ ¬BlankIfSpaced value)) ∧
      (((compare name operator value).term = .call .constFalse [] ∧
          ∃ text, operator.Compares SelectorPath.hasWord text value) ↔
        operator = .includes ∧ ¬BlankIfSpaced value) ∧
      (operator.MatchesNothing value ↔
        (value = "" ∧ operator ∈ [.includes, .startsWith, .endsWith, .contains]) ∨
          (operator = .includes ∧ ∃ c ∈ value.toList, isBlank c)) := by
  have hterm := (term_eq_constFalse_iff name operator value).trans (isVacuous_iff operator value)
  refine ⟨hterm, ?_, operator.matchesNothing_iff value⟩
  rw [hterm]
  constructor
  · rintro ⟨hnothing | hword, text, hcompares⟩
    · exact absurd hcompares (hnothing text)
    · exact hword
  · rintro ⟨rfl, hword⟩
    exact ⟨.inr ⟨rfl, hword⟩, value, hasWord_of_not_blankIfSpaced hword⟩

/-- The value with a no-break space is the only word of itself, and the test for it is `false()`. -/
theorem term_noBreakSpaceWord :
    (compare "a" .includes "x\u00a0y").term = .call .constFalse [] ∧
      SelectorPath.hasWord "x\u00a0y" "x\u00a0y" := by
  constructor
  · exact (term_eq_constFalse_iff _ _ _).mpr (by decide)
  · exact AttributeOperator.hasWord_self_iff.mpr ⟨by decide, forall_mem_of_all (by decide)⟩

end AttributeTest

end SelectorPath
