import SelectorPath.Proofs.Compile.WellFormed
import SelectorPath.Proofs.Selector.Printing

/-!
The names of elements and attributes in selectors beside the names of XML. All word characters but
a few are characters of names in XML (`Text.isNcNamePart_iff_of_isWord`), and so the names in the
selectors that a text gives are names of XML but for these (`SelectorList.names_isNcName_iff`).
-/

namespace SelectorPath

open Text Lexicon XPath

/-! ## Characters -/

namespace Text

/-- The ranges of what a name starts with in XML 1.0 (fifth edition), without the colon. -/
def ncNameStartRanges : List (Nat × Nat) :=
  [(0x41, 0x5A), (0x5F, 0x5F), (0x61, 0x7A), (0xC0, 0xD6), (0xD8, 0xF6), (0xF8, 0x2FF),
   (0x370, 0x37D), (0x37F, 0x1FFF), (0x200C, 0x200D), (0x2070, 0x218F), (0x2C00, 0x2FEF),
   (0x3001, 0xD7FF), (0xF900, 0xFDCF), (0xFDF0, 0xFFFD), (0x10000, 0xEFFFF)]

/-- The ranges of what a name goes on with: the same, hyphens and full stops, digits, the middle
dot, combining marks and ties. -/
def ncNamePartRanges : List (Nat × Nat) :=
  [(0x2D, 0x2E), (0x30, 0x39), (0x41, 0x5A), (0x5F, 0x5F), (0x61, 0x7A), (0xB7, 0xB7),
   (0xC0, 0xD6), (0xD8, 0xF6), (0xF8, 0x2FF), (0x300, 0x36F), (0x370, 0x37D), (0x37F, 0x1FFF),
   (0x200C, 0x200D), (0x203F, 0x2040), (0x2070, 0x218F), (0x2C00, 0x2FEF), (0x3001, 0xD7FF),
   (0xF900, 0xFDCF), (0xFDF0, 0xFFFD), (0x10000, 0xEFFFF)]

/-- The ranges of the word characters that XML keeps out of names: the ordinal indicators and the
micro sign, the inverted undertie and the circled letters. -/
def strayRanges : List (Nat × Nat) :=
  [(0xAA, 0xAA), (0xB5, 0xB5), (0xBA, 0xBA), (0x2054, 0x2054), (0x24B6, 0x24E9)]

def isNcNameStart (c : Char) : Bool := inRanges c.toNat ncNameStartRanges

def isNcNamePart (c : Char) : Bool := inRanges c.toNat ncNamePartRanges

def isStray (c : Char) : Bool := inRanges c.toNat strayRanges

/-- Ranges hold the numbers of other ranges, which are tested as wholes. -/
theorem inRanges_of_forall_covers {ranges others : List (Nat × Nat)} {n : Nat}
    (hall : ∀ r ∈ others, covers ranges r) (h : inRanges n others) : inRanges n ranges := by
  obtain ⟨r, hr, hlo, hhi⟩ := inRanges_sound h
  exact inRanges_of_covers r (hall r hr) hlo hhi

theorem isWord_of_isStray {c : Char} (h : isStray c) : isWord c :=
  inRanges_of_forall_covers (by decide +kernel) h

theorem isNcNamePart_of_isNcNameStart {c : Char} (h : isNcNameStart c) : isNcNamePart c :=
  inRanges_of_forall_covers (by decide +kernel) h

theorem isNcNamePart_of_isStray {c : Char} (h : isStray c) : isNcNamePart c = false :=
  inRanges_of_disjoint (by decide +kernel) h

/-- The word characters that are no characters of names in XML are the stray ones. -/
theorem isNcNamePart_iff_of_isWord {c : Char} (h : isWord c) :
    isNcNamePart c ↔ isStray c = false := by
  constructor
  · intro hpart
    by_contra hstray
    simp [isNcNamePart_of_isStray (Bool.eq_true_of_not_eq_false hstray)] at hpart
  · intro hstray
    -- no range of word characters has both stray ones and others
    have hsplit : ∀ r ∈ wordRanges, covers ncNamePartRanges r ∨ covers strayRanges r := by
      decide +kernel
    obtain ⟨r, hr, hlo, hhi⟩ := inRanges_sound h
    rcases hsplit r hr with hpart | hout
    · exact inRanges_of_covers r hpart hlo hhi
    · have hc : isStray c := inRanges_of_covers r hout hlo hhi
      simp [hstray] at hc

theorem isNcNamePart_iff_of_isAttributePart {c : Char} (h : isAttributePart c) :
    isNcNamePart c ↔ isStray c = false := by
  simp only [isAttributePart, isNamePart, Bool.or_eq_true, beq_iff_eq] at h
  rcases h with (rfl | hword) | rfl
  · decide
  · exact isNcNamePart_iff_of_isWord hword
  · decide

theorem isNcNameStart_of_isNameStart {c : Char} (h : isNameStart c) : isNcNameStart c :=
  inRanges_of_isNameStart (by decide +kernel) h

end Text

/-! ## Names -/

/-- A name of XML without a colon. -/
def IsNcName (name : String) : Prop := Headed isNcNameStart isNcNamePart name.toList

/-- A name that a selector may have is one of XML if it has no stray character. -/
theorem XPath.IsName.isNcName_iff {name : String} (h : IsName name) :
    IsNcName name ↔ ∀ c ∈ name.toList, isStray c = false := by
  have hpart : ∀ c ∈ name.toList, isAttributePart c :=
    all_of_headed h fun c hc => by simp [isAttributePart, isNamePart, isWord_of_isNameStart hc]
  constructor
  · intro hnc c hc
    have hall := all_of_headed hnc (fun _ => isNcNamePart_of_isNcNameStart)
    exact (isNcNamePart_iff_of_isAttributePart (hpart c hc)).mp (hall c hc)
  · intro hstray
    obtain ⟨c, s, hs, hc, -⟩ := h
    refine ⟨c, s, hs, isNcNameStart_of_isNameStart hc, fun d hd => ?_⟩
    have hmem : d ∈ name.toList := by simp [hs, hd]
    exact (isNcNamePart_iff_of_isAttributePart (hpart d hmem)).mpr (hstray d hmem)

def AttributeTest.name : AttributeTest → String
  | .present name => name
  | .compare name _ _ => name

mutual

/-- The names of elements and attributes in a qualifier, at any depth. -/
def Qualifier.names : Qualifier → List String
  | .attributeTest test => [test.name]
  | .negation element qualifiers =>
    (ElementTest.name? element).toList ++ Qualifier.allNames qualifiers
  | _ => []

def Qualifier.allNames : List Qualifier → List String
  | [] => []
  | q :: rest => q.names ++ Qualifier.allNames rest

end

def Compound.names (compound : Compound) : List String :=
  (ElementTest.name? compound.element).toList ++ Qualifier.allNames compound.qualifiers

def Selector.names (selector : Selector) : List String :=
  selector.steps.flatMap fun step => step.compound.names

theorem ElementTest.Named.isName {element : Option ElementTest} (h : ElementTest.Named element) :
    ∀ name ∈ (ElementTest.name? element).toList, IsName name := by
  intro name hname
  exact isName_of_element (h name (by simpa using hname))

mutual

theorem Qualifier.names_isName (q : Qualifier) (h : q.Each ElementTest.Named Qualifier.Named) :
    ∀ name ∈ q.names, IsName name := by
  match q with
  | .attributeTest (.present _) | .attributeTest (.compare _ _ _) =>
    exact List.forall_mem_singleton.mpr h
  | .negation element qualifiers =>
    rw [Qualifier.names]
    exact List.forall_mem_append.mpr ⟨h.1.isName, Qualifier.allNames_isName qualifiers h.2⟩
  | .className _ | .id _ | .place _ _ | .nth _ _ => simp [Qualifier.names]

theorem Qualifier.allNames_isName (qualifiers : List Qualifier)
    (h : Qualifier.AllEach ElementTest.Named Qualifier.Named qualifiers) :
    ∀ name ∈ Qualifier.allNames qualifiers, IsName name := by
  match qualifiers with
  | [] => simp [Qualifier.allNames]
  | q :: rest =>
    rw [Qualifier.allNames]
    exact List.forall_mem_append.mpr
      ⟨Qualifier.names_isName q h.1, Qualifier.allNames_isName rest h.2⟩

end

theorem Selector.WellFormed.names_isName {selector : Selector} (h : selector.WellFormed) :
    ∀ name ∈ selector.names, IsName name := by
  intro name hname
  obtain ⟨step, hstep, hname⟩ := List.mem_flatMap.mp hname
  have hcompound := h.named step hstep
  exact List.forall_mem_append.mpr
    ⟨hcompound.element.isName, Qualifier.allNames_isName _ hcompound.qualifiers⟩ name hname

/-! ## Texts -/

/-- An element and its attribute that have the same name. -/
def Selector.twice (name : String) : Selector :=
  ⟨[⟨.descendant, ⟨some (.named name), [.attributeTest (.present name)]⟩⟩]⟩

theorem Selector.twice_wellFormed {name : String} (h : Headed isNameStart isNamePart name.toList) :
    (Selector.twice name).WellFormed := by
  have hnamed : ElementTest.Named (some (.named name)) := by
    rintro _ ⟨⟩
    exact h
  refine ⟨by simp [twice], by simp [twice], ?_, ?_, ?_, ?_⟩ <;>
    refine List.forall_mem_singleton.mpr ?_
  · exact ⟨by simp [Compound.Nonempty], trivial, trivial⟩
  · exact ⟨trivial, trivial, trivial⟩
  · exact ⟨hnamed, isName_of_element h, trivial⟩
  · exact ⟨by simp [Compound.depth, Qualifier.depthAll, Qualifier.depth], fun _ => rfl, trivial⟩

namespace SelectorList

theorem ofText_twice {name : String} (h : Headed isNameStart isNamePart name.toList) :
    ofText .standard .standard (String.ofList (name.toList ++ '[' :: (name.toList ++ [']']))) =
      .ok ⟨[.twice name], []⟩ := by
  have hread := ofText_text (List.cons_ne_nil _ _)
    (List.forall_mem_singleton.mpr (Selector.twice_wellFormed h))
  have htext : text [.twice name] = name.toList ++ '[' :: (name.toList ++ [']']) := by
    simp [text, Selector.text, Selector.twice, Combinator.scopeText, Compound.text,
      ElementTest.text, Qualifier.textAll, Qualifier.text, AttributeTest.text]
  rwa [htext] at hread

/-- A name in the selectors that a text gives is a name of XML if and only if it has no stray
character. All names of name characters are given, to an element and to an attribute, and the stray
characters are among these. -/
theorem names_isNcName_iff (name : String) :
    (∀ options text list, ofText .standard options text = .ok list →
      ∀ selector ∈ list.selectors, name ∈ selector.names →
        (IsNcName name ↔ ∀ c ∈ name.toList, isStray c = false)) ∧
    (Headed isNameStart isNamePart name.toList →
      ofText .standard .standard (String.ofList (name.toList ++ '[' :: (name.toList ++ [']']))) =
        .ok ⟨[.twice name], []⟩) ∧
    ∀ c, isStray c → isNamePart c := by
  refine ⟨?_, ofText_twice, fun c hc => by simp [isNamePart, isWord_of_isStray hc]⟩
  intro options text list h selector hselector hname
  have hwell := (ofText_wellFormed h).2 selector hselector
  exact (hwell.names_isName name hname).isNcName_iff

/-- The selector of `a:not(bº:not([c.d]))`. -/
private def nestedNames : Selector :=
  ⟨[⟨.descendant, ⟨some (.named "a"),
    [.negation (some (.named "bº")) [.negation none [.attributeTest (.present "c.d")]]]⟩⟩]⟩

theorem names_isNcName_iff_nested :
    ofText .standard .standard "a:not(bº:not([c.d]))" = .ok ⟨[nestedNames], []⟩ ∧
      nestedNames.names = ["a", "bº", "c.d"] ∧ ¬IsNcName "bº" ∧ IsNcName "c.d" ∧
      ofText .standard .standard (String.ofList ("bº".toList ++ '[' :: ("bº".toList ++ [']']))) =
        .ok ⟨[.twice "bº"], []⟩ := by
  have hread : ofText .standard .standard "a:not(bº:not([c.d]))" = .ok ⟨[nestedNames], []⟩ := by
    cbv
  obtain ⟨hordinal, htwice, hpart⟩ := names_isNcName_iff "bº"
  have hdotted := (names_isNcName_iff "c.d").1
  refine ⟨hread, by decide, ?_, ?_, htwice ⟨'b', ['º'], rfl, by decide, ?_⟩⟩
  · rw [hordinal _ _ _ hread nestedNames (by simp) (by decide)]
    exact fun hall => absurd (hall 'º' (by decide)) (by decide)
  · rw [hdotted _ _ _ hread nestedNames (by simp) (by decide)]
    exact forall_mem_of_all rfl
  · exact List.forall_mem_singleton.mpr (hpart 'º' (by decide))

/-- A name with the micro sign is read, but no name of XML has it. -/
theorem names_not_isNcName_micro :
    ofText .standard .standard "[aµ]" =
        .ok ⟨[⟨[⟨.descendant, ⟨none, [.attributeTest (.present "aµ")]⟩⟩]⟩], []⟩ ∧
      ¬IsNcName "aµ" := by
  refine ⟨by cbv, ?_⟩
  rintro ⟨c, s, hs, -, hall⟩
  obtain ⟨rfl, rfl⟩ := List.cons.inj hs
  exact absurd (hall 'µ' (by decide)) (by decide)

end SelectorList

end SelectorPath
