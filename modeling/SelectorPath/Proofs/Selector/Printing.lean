import SelectorPath.Proofs.Selector.WellFormed
import SelectorPath.Proofs.XPath.Parsing

/-!
Writing selectors. The written form of well-formed selectors is read as these selectors
(`SelectorList.ofText_text`), so that the selectors that texts give are the well-formed ones
(`SelectorList.given_iff_wellFormed`).
-/

namespace SelectorPath

open Text Grammar Lexicon

/-! ## Values -/

namespace Quoted

/-- A backslash stands before quotes and backslashes. -/
def escapeChar (c : Char) : List Char := if c = '"' ∨ c = '\\' then ['\\', c] else [c]

/-- A value in quotes. -/
def text (value : String) : List Char := '"' :: (value.toList.flatMap escapeChar ++ ['"'])

theorem escapeChar_body {c : Char} {s : List Char} (h : QuotedBody '"' s) :
    QuotedBody '"' (escapeChar c ++ s) := by
  unfold escapeChar
  split
  · next hc => exact .escaped (by rcases hc with rfl | rfl <;> decide) h
  · next hc =>
    obtain ⟨hquote, hslash⟩ := not_or.mp hc
    exact .plain hquote hslash h

theorem text_quoted (value : String) : QuotedText '"' (text value) := by
  refine ⟨_, rfl, ?_⟩
  induction value.toList with
  | nil => exact .nil
  | cons c s ih => exact escapeChar_body ih

theorem unescape_escapeChar (c : Char) (s : List Char) :
    unescape (escapeChar c ++ s) = c :: unescape s := by
  unfold escapeChar
  split
  · next hc =>
    have hescape : escape (c :: s) = some (c, s) := by
      rcases hc with rfl | rfl <;> rfl
    rw [List.cons_append, List.singleton_append, unescape, if_pos rfl]
    split
    · next hnone => simp [hescape] at hnone
    · next hsome =>
      obtain ⟨rfl, rfl⟩ := Prod.mk.inj (Option.some.inj (hescape.symm.trans hsome))
      rfl
  · next hc => simp [unescape, not_or.mp hc]

theorem value_text (value : String) : Quoted.value (text value) = value := by
  have hunescape : ∀ s : List Char, unescape (s.flatMap escapeChar) = s := by
    intro s
    induction s with
    | nil => simp [unescape]
    | cons c s ih => rw [List.flatMap_cons, unescape_escapeChar, ih]
  simp [Quoted.value, text, hunescape]

end Quoted

/-! ## Numbers -/

namespace Formula

/-- A number with its sign. -/
def numberText (n : Int64) : List Char :=
  (if n.toInt < 0 then '-' else '+') :: Nat.toDigits 10 n.toInt.natAbs

def text : Formula → List Char
  | .even => ['(', 'e', 'v', 'e', 'n', ')']
  | .odd => ['(', 'o', 'd', 'd', ')']
  | .linear coefficient constant =>
    '(' :: (numberText coefficient ++ ['n'] ++ numberText constant ++ [')'])

theorem numberText_eq {n : Int64} (h : NumberInRange n) :
    ∃ sign digits negative magnitude, numberText n = sign ++ digits ∧ SignText sign negative ∧
      NumberText digits magnitude ∧ n = signed negative magnitude := by
  have hsmall : n.toInt.natAbs < 2 ^ 63 := by
    obtain ⟨h1, h2⟩ := h
    omega
  have hdigits : NumberText (Nat.toDigits 10 n.toInt.natAbs) (Int64.ofInt n.toInt.natAbs) :=
    ⟨_, XPath.natural?_toDigits _, hsmall, rfl⟩
  by_cases hn : n.toInt < 0
  · refine ⟨['-'], _, true, _, by simp [numberText, hn], .inr ⟨rfl, rfl⟩, hdigits, ?_⟩
    rw [← Int64.toInt_inj, toInt_signed hsmall, if_pos rfl]
    omega
  · refine ⟨['+'], _, false, _, by simp [numberText, hn], .inl ⟨rfl, rfl⟩, hdigits, ?_⟩
    rw [← Int64.toInt_inj, toInt_signed hsmall, if_neg (by simp)]
    omega

theorem text_formulaText {formula : Formula} (h : formula.InRange) :
    FormulaText formula.text formula := by
  have hspace : SpaceText [] := by simp [SpaceText]
  cases formula with
  | even => exact ⟨[], "even".toList, [], rfl, hspace, .even rfl, hspace⟩
  | odd => exact ⟨[], "odd".toList, [], rfl, hspace, .odd rfl, hspace⟩
  | linear a b =>
    obtain ⟨sign, digits, negative, magnitude, ha, hsign, hdigits, rfl⟩ := numberText_eq h.1
    obtain ⟨sign', digits', negative', magnitude', hb, hsign', hdigits', rfl⟩ := numberText_eq h.2
    refine ⟨[], _, [], ?_, hspace, .linear (.digits (.inr hsign) hdigits) (.inl rfl)
      (.present hspace hsign' hspace hdigits'), hspace⟩
    rw [text, ha, hb]
    simp only [List.nil_append, List.append_nil]

end Formula

/-! ## Qualifiers -/

def AttributeOperator.text : AttributeOperator → List Char
  | .equals => ['=']
  | .includes => ['~', '=']
  | .dashMatch => ['|', '=']
  | .startsWith => ['^', '=']
  | .endsWith => ['$', '=']
  | .contains => ['*', '=']

def AttributeTest.text : AttributeTest → List Char
  | .present name => '[' :: (name.toList ++ [']'])
  | .compare name operator value =>
    '[' :: (name.toList ++ operator.text ++ Quoted.text value ++ [']'])

def ElementTest.text : Option ElementTest → List Char
  | none => []
  | some .universal => ['*']
  | some (.named name) => name.toList

mutual

def Qualifier.text : Qualifier → List Char
  | .className name => '.' :: name.toList
  | .id name => '#' :: name.toList
  | .attributeTest test => test.text
  | .place p among => ':' :: (PseudoClass.place p among).name.toList
  | .nth formula among => ':' :: ((PseudoClass.nth among).name.toList ++ formula.text)
  | .negation element qualifiers =>
    ':' :: (PseudoClass.negation.name.toList ++ ['('] ++
      (ElementTest.text element ++ Qualifier.textAll qualifiers) ++ [')'])

def Qualifier.textAll : List Qualifier → List Char
  | [] => []
  | q :: rest => q.text ++ Qualifier.textAll rest

end

theorem ElementTest.text_elementText {element : Option ElementTest} (h : ElementTest.Named element) :
    ElementText (ElementTest.text element) element := by
  match element with
  | none => exact .absent
  | some .universal => exact .universal
  | some (.named name) =>
    have htext := ElementText.named (h name rfl)
    rwa [String.ofList_toList] at htext

theorem AttributeTest.text_attributeText {test : AttributeTest}
    (h : (Qualifier.attributeTest test).Named) : AttributeText test.text test := by
  have hspace : SpaceText [] := by simp [SpaceText]
  cases test with
  | present name =>
    have htext := AttributeText.present hspace h hspace
    rw [String.ofList_toList] at htext
    simpa [AttributeTest.text] using htext
  | compare name operator value =>
    have hoperator : AttributeOperator.ofText? operator.text = some operator := by
      cases operator <;> rfl
    have hvalue := ValueText.quoted (.inl rfl) (Quoted.text_quoted value)
    rw [Quoted.value_text] at hvalue
    have htext := AttributeText.compare hspace h hspace hoperator hspace hvalue hspace
    rw [String.ofList_toList] at htext
    simpa [AttributeTest.text] using htext

theorem pseudoClassText_name (pseudoClass : PseudoClass) :
    PseudoClassText pseudoClass.name.toList pseudoClass := by
  have hall : ∀ p ∈ PseudoClass.all, p.name.toList.map Char.toLower = p.name.toList := by
    decide
  exact hall pseudoClass (PseudoClass.mem_all pseudoClass)

mutual

/-- A qualifier can be written in front of others. -/
theorem Qualifier.text_append (q : Qualifier) (hfilled : q.Filled)
    (hnamed : q.Each ElementTest.Named Qualifier.Named)
    (hrange : q.Each (fun _ => True) Qualifier.InRange) {t : List Char} {rest : List Qualifier}
    (ht : QualifiersText t rest) : QualifiersText (q.text ++ t) (q :: rest) := by
  match q with
  | .className name =>
    have htext := PlainText.className hnamed
    rw [String.ofList_toList] at htext
    exact .plain htext ht
  | .id name =>
    have htext := PlainText.id hnamed
    rw [String.ofList_toList] at htext
    exact .plain htext ht
  | .attributeTest test => exact .plain (.attributeTest (AttributeTest.text_attributeText hnamed)) ht
  | .place p among => exact .plain (.place (pseudoClassText_name _)) ht
  | .nth formula among =>
    exact .plain (.nth (pseudoClassText_name _) (Formula.text_formulaText hrange)) ht
  | .negation element qualifiers =>
    have hspace : SpaceText [] := by simp [SpaceText]
    have hqualifiers := Qualifier.textAll_text qualifiers hfilled.2 hnamed.2 hrange.2
    have htext := QualifiersText.negation (pseudoClassText_name .negation) hspace
      (ElementTest.text_elementText hnamed.1) hqualifiers hfilled.1 hspace ht
    rwa [List.nil_append, List.append_nil] at htext

theorem Qualifier.textAll_text (qualifiers : List Qualifier)
    (hfilled : Qualifier.AllFilled qualifiers)
    (hnamed : Qualifier.AllEach ElementTest.Named Qualifier.Named qualifiers)
    (hrange : Qualifier.AllEach (fun _ => True) Qualifier.InRange qualifiers) :
    QualifiersText (Qualifier.textAll qualifiers) qualifiers := by
  match qualifiers with
  | [] => exact .nil
  | q :: rest =>
    exact Qualifier.text_append q hfilled.1 hnamed.1 hrange.1
      (Qualifier.textAll_text rest hfilled.2 hnamed.2 hrange.2)

end

/-! ## Selectors -/

def Compound.text (compound : Compound) : List Char :=
  ElementTest.text compound.element ++ Qualifier.textAll compound.qualifiers

def Combinator.text : Combinator → List Char
  | .descendant => [' ']
  | .child => ['>']
  | .nextSibling => ['+']
  | .laterSibling => ['~']

def Step.text (step : Step) : List Char := step.combinator.text ++ step.compound.text

/-- What stands before the first compound. -/
def Combinator.scopeText : Combinator → List Char
  | .child => ['>']
  | _ => []

def Selector.text (selector : Selector) : List Char :=
  match selector.steps with
  | [] => []
  | first :: rest =>
    first.combinator.scopeText ++ first.compound.text ++ rest.flatMap Step.text

theorem Compound.text_compoundText {compound : Compound} (hfilled : compound.Filled)
    (hnamed : compound.Named) (hrange : compound.InRange) :
    CompoundText compound.text compound :=
  ⟨[], ElementTest.text compound.element, Qualifier.textAll compound.qualifiers, rfl,
    by simp [SpaceText], ElementTest.text_elementText hnamed.element,
    Qualifier.textAll_text _ hfilled.qualifiers hnamed.qualifiers hrange.qualifiers,
    hfilled.nonempty⟩

theorem Combinator.text_combinatorText (combinator : Combinator) :
    CombinatorText combinator.text combinator := by
  cases combinator with
  | descendant => exact .descendant ⟨' ', [], rfl, by decide, by simp⟩
  | child => exact .child ⟨[], rfl, by simp⟩
  | nextSibling => exact .nextSibling ⟨[], rfl, by simp⟩
  | laterSibling => exact .laterSibling ⟨[], rfl, by simp⟩

theorem Step.flatMap_text {steps : List Step}
    (h : ∀ step ∈ steps, CompoundText step.compound.text step.compound) :
    StepsText (steps.flatMap Step.text) steps := by
  induction steps with
  | nil => exact .nil
  | cons step rest ih =>
    obtain ⟨hstep, hrest⟩ := List.forall_mem_cons.mp h
    exact .cons step.combinator.text_combinatorText hstep (ih hrest)

theorem Selector.text_selectorText {selector : Selector} (h : selector.WellFormed) :
    SelectorText selector.text selector := by
  have hcompounds : ∀ step ∈ selector.steps, CompoundText step.compound.text step.compound :=
    fun step hstep => Compound.text_compoundText (h.filled step hstep) (h.named step hstep)
      (h.inRange step hstep)
  obtain ⟨steps⟩ := selector
  cases steps with
  | nil => exact absurd rfl h.ne_nil
  | cons first rest =>
    obtain ⟨hfirst, hrest⟩ := List.forall_mem_cons.mp hcompounds
    have hscope : ScopeText first.combinator.scopeText first.combinator := by
      rcases h.first first rfl with hcombinator | hcombinator
      · rw [hcombinator]
        exact .absent
      · rw [hcombinator]
        exact .child ⟨[], rfl, by simp⟩
    exact .intro hscope hfirst (Step.flatMap_text hrest)

/-! ## Lists -/

namespace SelectorList

/-- Selectors with commas between them. -/
def text : List Selector → List Char
  | [] => []
  | [selector] => selector.text
  | selector :: rest => selector.text ++ [','] ++ text rest

theorem text_membersText {selectors : List Selector} (hne : selectors ≠ [])
    (h : ∀ selector ∈ selectors, selector.WellFormed) : MembersText (text selectors) selectors := by
  induction selectors with
  | nil => exact absurd rfl hne
  | cons selector rest ih =>
    obtain ⟨hfirst, hothers⟩ := List.forall_mem_cons.mp h
    cases rest with
    | nil => exact .last (Selector.text_selectorText hfirst)
    | cons second rest =>
      exact .cons (Selector.text_selectorText hfirst) ⟨[], rfl, by simp⟩
        (ih (List.cons_ne_nil _ _) hothers)

/-- The written form of well-formed selectors is read as these selectors. -/
theorem ofText_text {selectors : List Selector} (hne : selectors ≠ [])
    (h : ∀ selector ∈ selectors, selector.WellFormed) :
    ofText .standard .standard (String.ofList (text selectors)) = .ok ⟨selectors, []⟩ := by
  refine ofText_strict_iff.mpr ⟨⟨⟨text selectors, [], ?_, text_membersText hne h, ?_⟩, ?_⟩, rfl⟩
  · simp
  · simp [SpaceText]
  · exact fun selector hselector => (h selector hselector).bounded

example : text [⟨[⟨.child, ⟨some (.named "a"), [.negation none [.className "b"]]⟩⟩,
      ⟨.nextSibling, ⟨none, [.attributeTest (.compare "c" .includes "\"d\\"),
        .nth (.linear (-2) 3) .children]⟩⟩]⟩] =
    ">a:not(.b)+[c~=\"\\\"d\\\\\"]:nth-child(-2n+3)".toList := by
  decide

/-- Texts give the lists of well-formed selectors, and under either policy and any limit they give
no other selectors. -/
theorem given_iff_wellFormed (selectors : List Selector) :
    ((∃ text list, ofText .standard .standard text = .ok list ∧ list.selectors = selectors) ↔
        selectors ≠ [] ∧ ∀ selector ∈ selectors, selector.WellFormed) ∧
      ∀ options text list, ofText .standard options text = .ok list →
        ∀ selector ∈ list.selectors, selector.WellFormed := by
  refine ⟨⟨?_, ?_⟩, fun options text list h => (ofText_wellFormed h).2⟩
  · rintro ⟨text, list, h, rfl⟩
    exact ofText_wellFormed h
  · rintro ⟨hne, h⟩
    exact ⟨_, _, ofText_text hne h, rfl⟩

end SelectorList

end SelectorPath
