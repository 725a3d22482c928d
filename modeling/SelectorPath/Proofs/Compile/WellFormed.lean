import SelectorPath.Proofs.Selector.WellFormed
import SelectorPath.Proofs.XPath.Parsing

/-!
The paths of selectors are well-formed: what selectors put into them are names of elements and
attributes, which are names, and texts, which become literals without their quote. Each term
binds more tightly than the conjunction that it stands in.
-/

namespace SelectorPath

open Text XPath Syntax

/-- A term that can stand in a conjunction. -/
structure IsTerm (e : Expr) : Prop where
  wellFormed : e.WellFormed
  level : Op.and.level < e.level

/-- The conjunction of such terms can be read back. -/
theorem termsWellFormed_of_isTerm {terms : List Expr} (hne : terms ≠ [])
    (h : ∀ e ∈ terms, IsTerm e) : TermsWellFormed terms :=
  ⟨hne, Expr.allWellFormed_iff.mpr fun e he => (h e he).wellFormed, fun e he => (h e he).level⟩

/-! ## Texts -/

theorem pieces_quote {s : List Char} :
    ∀ p ∈ pieces s, p.1.char ∉ p.2 := by
  induction s with
  | nil => simp [pieces]
  | cons c rest ih =>
    unfold pieces
    split
    · next hc => exact List.forall_mem_cons.mpr ⟨by decide, ih⟩
    · next hc =>
      split
      · next run more heq =>
        rw [heq] at ih
        obtain ⟨hrun, hmore⟩ := List.forall_mem_cons.mp ih
        refine List.forall_mem_cons.mpr ⟨?_, hmore⟩
        simp only [List.mem_cons, not_or]
        exact ⟨fun h => hc h.symm, hrun⟩
      · refine List.forall_mem_cons.mpr ⟨?_, ih⟩
        simpa [Quote.char] using fun h => hc h.symm

theorem ofText_wellFormed (text : String) :
    (Expr.ofText text).WellFormed ∧ (Expr.ofText text).level = pathLevel := by
  unfold Expr.ofText
  split
  · next h => exact ⟨h, rfl⟩
  · split
    · next h => exact ⟨h, rfl⟩
    · refine ⟨?_, rfl⟩
      rw [Expr.WellFormed, Expr.allWellFormed_iff]
      intro e he
      obtain ⟨p, hp, rfl⟩ := List.mem_map.mp he
      simpa [Expr.WellFormed] using pieces_quote p hp

/-! ## Positions -/

def Position.WellFormed : Position → Prop
  | .exact => True
  | .counted test => test.WellFormed

namespace Position

theorem index_wellFormed {position : Position} (h : position.WellFormed) :
    position.index.WellFormed ∧ position.index.level = pathLevel := by
  cases position with
  | exact => exact ⟨trivial, rfl⟩
  | counted test => exact ⟨⟨⟨h, trivial⟩, trivial, of_decide_eq_true rfl, by decide⟩, rfl⟩

theorem first_isTerm {position : Position} (h : position.WellFormed) : IsTerm position.first := by
  cases position with
  | exact => exact ⟨⟨trivial, trivial, by decide, by decide⟩, by decide⟩
  | counted test =>
    refine ⟨⟨by simp, ⟨h, trivial⟩, ?_⟩, of_decide_eq_true rfl⟩
    simpa using of_decide_eq_true rfl

theorem last_isTerm {position : Position} (h : position.WellFormed) : IsTerm position.last := by
  cases position with
  | exact => exact ⟨⟨trivial, trivial, by decide, by decide⟩, by decide⟩
  | counted test =>
    refine ⟨⟨by simp, ⟨h, trivial⟩, ?_⟩, of_decide_eq_true rfl⟩
    simpa using of_decide_eq_true rfl

theorem place_isTerm {position : Position} (h : position.WellFormed) (p : Place) :
    ∀ e ∈ position.place p, IsTerm e := by
  cases p with
  | first => simpa [place] using first_isTerm h
  | last => simpa [place] using last_isTerm h
  | only => simpa [place] using ⟨first_isTerm h, last_isTerm h⟩

end Position

namespace Formula

theorem number_level (n : Int) : signLevel ≤ (Expr.number n).level := by
  simp only [Expr.level]
  split <;> decide

/-- A test that an operator above the sums is applied to an operand without operators. -/
theorem compare_isTerm {op : Operator} {a : Expr} (h : a.WellFormed)
    (hlevel : Op.mod.level ≤ a.level) (n : Int) (hop : Op.and.level < op.toOp.level) :
    IsTerm (.binary op a (.number n)) := by
  have hn := number_level n
  have hlt := op.level_lt
  simp only [signLevel] at hn hlt
  refine ⟨⟨h, trivial, ?_, ?_⟩, hop⟩
  · exact Nat.le_trans (Nat.le_of_lt_succ hlt) hlevel
  · exact Nat.lt_of_lt_of_le hlt hn

theorem leaves_isTerm {e : Expr} (h : e.WellFormed) (hlevel : e.level = pathLevel)
    (modulus remainder : Int) : IsTerm (leaves e modulus remainder) := by
  have hmod : (Expr.binary .mod e (.number modulus)).WellFormed := by
    refine ⟨h, trivial, ?_, ?_⟩
    · rw [hlevel]
      decide
    · exact Nat.lt_of_lt_of_le (by decide) (number_level modulus)
  exact compare_isTerm hmod (Nat.le_refl _) remainder (by decide)

theorem distance_wellFormed {index : Expr} (h : index.WellFormed)
    (hlevel : index.level = pathLevel) (constant : Int) :
    (distance index constant).WellFormed ∧ (distance index constant).level = pathLevel := by
  have hn (n : Int) : Op.plus.level < (Expr.number n).level :=
    Nat.lt_of_lt_of_le (by decide) (number_level n)
  have hindex : Op.plus.level ≤ index.level := by
    rw [hlevel]
    decide
  unfold distance
  split
  · exact ⟨h, hlevel⟩
  · split
    · exact ⟨⟨h, trivial, hindex, hn _⟩, rfl⟩
    · exact ⟨⟨h, trivial, hindex, hn _⟩, rfl⟩

theorem linearTerms_isTerm (a b : Int) {index : Expr} (h : index.WellFormed)
    (hlevel : index.level = pathLevel) : ∀ e ∈ linearTerms a b index, IsTerm e := by
  have hcompare (op : Operator) (hop : Op.and.level < op.toOp.level) (n : Int) :
      IsTerm (.binary op index (.number n)) := by
    refine compare_isTerm h ?_ n hop
    rw [hlevel]
    decide
  have hconst (f : XPath.Function) : IsTerm (.call f []) := ⟨trivial, of_decide_eq_true rfl⟩
  have hdistance := distance_wellFormed h hlevel b
  have hminus : (Expr.group (.binary .minus (.number b) index)).WellFormed := by
    refine ⟨trivial, h, ?_, ?_⟩
    · exact Nat.le_of_lt (Nat.lt_of_lt_of_le (by decide) (number_level b))
    · rw [hlevel]
      decide
  unfold linearTerms
  split
  · simpa using hcompare .equal (by decide) b
  · split
    · split
      · simpa using hcompare .atLeast (by decide) b
      · simpa using hconst .constTrue
    · split
      · refine List.forall_mem_cons.mpr ⟨leaves_isTerm hdistance.1 hdistance.2 a 0, ?_⟩
        split
        · simpa using hcompare .atLeast (by decide) b
        · simp
      · split
        · simpa using hconst .constFalse
        · split
          · simpa using hcompare .atMost (by decide) b
          · refine List.forall_mem_cons.mpr ⟨leaves_isTerm hminus rfl (-a) 0, ?_⟩
            simpa using hcompare .atMost (by decide) b

theorem terms_isTerm (formula : Formula) {index : Expr} (h : index.WellFormed)
    (hlevel : index.level = pathLevel) : ∀ e ∈ formula.terms index, IsTerm e := by
  cases formula with
  | even => simpa [terms] using leaves_isTerm h hlevel 2 0
  | odd => simpa [terms] using leaves_isTerm h hlevel 2 1
  | linear a b => exact linearTerms_isTerm a.toInt b.toInt h hlevel

end Formula

/-! ## Qualifiers -/

/-- The attribute of a qualifier has a name. -/
def Qualifier.AttributeNamed : Qualifier → Prop
  | .attributeTest (.present name) | .attributeTest (.compare name _ _) =>
    Headed isNameStart isAttributePart name.toList
  | _ => True

theorem hasWord_isTerm {target : Expr} (h : target.WellFormed) (word : String) :
    IsTerm (AttributeTest.hasWord target word) := by
  have hblank : (Expr.literal ⟨.double, " "⟩).WellFormed := by simp [Expr.WellFormed, Quote.char]
  refine ⟨⟨⟨hblank, ⟨h, trivial⟩, hblank, trivial⟩, (ofText_wellFormed _).1, trivial⟩, ?_⟩
  exact of_decide_eq_true rfl

theorem attributeTest_isTerm {test : AttributeTest} (h : (Qualifier.attributeTest test).AttributeNamed) :
    IsTerm test.term := by
  cases test with
  | present name => exact ⟨h, of_decide_eq_true rfl⟩
  | compare name operator value =>
    have hname : (Expr.attributeNamed name).WellFormed := h
    have htext := ofText_wellFormed value
    have hlevel : Op.equal.level < (Expr.ofText value).level := by
      rw [htext.2]
      decide
    have hsame : (Expr.same (.attributeNamed name) (.ofText value)).WellFormed :=
      ⟨hname, htext.1, of_decide_eq_true rfl, hlevel⟩
    rw [AttributeTest.term]
    split
    · exact ⟨trivial, of_decide_eq_true rfl⟩
    · cases operator with
      | equals => exact ⟨hsame, of_decide_eq_true rfl⟩
      | includes => exact hasWord_isTerm hname value
      | dashMatch =>
        refine ⟨⟨hsame, ⟨hname, (ofText_wellFormed _).1, trivial⟩, ?_, ?_⟩, of_decide_eq_true rfl⟩
        · exact of_decide_eq_true rfl
        · exact of_decide_eq_true rfl
      | startsWith => exact ⟨⟨hname, htext.1, trivial⟩, of_decide_eq_true rfl⟩
      | endsWith =>
        have hlengths : (Expr.binary .minus (.call .stringLength [.attributeNamed name])
            (.call .stringLength [.ofText value])).WellFormed :=
          ⟨⟨hname, trivial⟩, ⟨htext.1, trivial⟩, of_decide_eq_true rfl, of_decide_eq_true rfl⟩
        refine ⟨⟨⟨hname, ⟨hlengths, trivial, ?_, by decide⟩, trivial⟩, htext.1, ?_, hlevel⟩, ?_⟩
        · exact of_decide_eq_true rfl
        · exact of_decide_eq_true rfl
        · exact of_decide_eq_true rfl
      | contains => exact ⟨⟨hname, htext.1, trivial⟩, of_decide_eq_true rfl⟩

/-- The positions and the name of a scope are well-formed. -/
structure Scope.WellFormed (scope : Scope) : Prop where
  child : scope.child.WellFormed
  sameType : scope.sameType.WellFormed
  element : ∀ name, scope.element = some name → Headed isNameStart isNamePart name.toList

theorem isName_of_element {name : String} (h : Headed isNameStart isNamePart name.toList) :
    IsName name := by
  obtain ⟨c, s, hs, hc, hall⟩ := h
  exact ⟨c, s, hs, hc, fun d hd => by simp [isAttributePart, hall d hd]⟩

theorem Scope.typeTest_wellFormed {element : Option String}
    (h : ∀ name, element = some name → Headed isNameStart isNamePart name.toList) :
    (Scope.typeTest element).WellFormed := by
  cases element with
  | none => trivial
  | some name => exact isName_of_element (h name rfl)

theorem Scope.counted_wellFormed {element : Option String}
    (h : ∀ name, element = some name → Headed isNameStart isNamePart name.toList) :
    (Scope.counted element).WellFormed :=
  ⟨trivial, typeTest_wellFormed h, h⟩

theorem Scope.WellFormed.position {scope : Scope} (h : scope.WellFormed) (among : Among) :
    (scope.position among).WellFormed := by
  cases among with
  | children => exact h.child
  | sameType => exact h.sameType

theorem elementTerms_isTerm {element : Option ElementTest} (h : ElementTest.Named element) :
    ∀ e ∈ ElementTest.terms element, IsTerm e := by
  unfold ElementTest.terms
  split
  · next name hname =>
    have hterm : IsTerm (.nodes .self (.named name)) :=
      ⟨isName_of_element (h name hname), of_decide_eq_true rfl⟩
    simpa using hterm
  · simp

theorem negateTerms_isTerm {terms : List Expr} (h : ∀ e ∈ terms, IsTerm e) :
    IsTerm (negateTerms terms) := by
  cases terms with
  | nil => exact ⟨trivial, of_decide_eq_true rfl⟩
  | cons e terms =>
    refine ⟨⟨by simp, ?_, fun e he => (h e he).level⟩, of_decide_eq_true rfl⟩
    exact Expr.allWellFormed_iff.mpr fun e he => (h e he).wellFormed

mutual

theorem Qualifier.terms_isTerm (q : Qualifier) {scope : Scope} (hscope : scope.WellFormed)
    (h : q.Each ElementTest.Named Qualifier.AttributeNamed) : ∀ e ∈ q.terms scope, IsTerm e := by
  match q with
  | .className name =>
    have hclass : (Expr.attributeNamed "class").WellFormed :=
      ⟨'c', _, rfl, rfl, forall_mem_of_all (by decide +kernel)⟩
    simpa [Qualifier.terms] using hasWord_isTerm hclass name
  | .id name =>
    have hid : (Expr.attributeNamed "id").WellFormed :=
      ⟨'i', _, rfl, rfl, forall_mem_of_all (by decide +kernel)⟩
    have htext := ofText_wellFormed name
    have hlevel : Op.equal.level < (Expr.ofText name).level := by
      rw [htext.2]
      decide
    have hterm : IsTerm (.same (.attributeNamed "id") (.ofText name)) :=
      ⟨⟨hid, htext.1, of_decide_eq_true rfl, hlevel⟩, of_decide_eq_true rfl⟩
    simpa [Qualifier.terms] using hterm
  | .attributeTest test => simpa [Qualifier.terms] using attributeTest_isTerm h
  | .place p among => exact Position.place_isTerm (hscope.position among) p
  | .nth formula among =>
    obtain ⟨hindex, hlevel⟩ := Position.index_wellFormed (hscope.position among)
    exact Formula.terms_isTerm formula hindex hlevel
  | .negation element qualifiers =>
    have hname : ∀ name, (ElementTest.name? element).or scope.element = some name →
        Headed isNameStart isNamePart name.toList := by
      intro name hname
      rcases Option.or_eq_some_iff.mp hname with hown | ⟨-, houter⟩
      · exact h.1 name hown
      · exact hscope.element name houter
    have hinner := Qualifier.allTerms_isTerm qualifiers (Scope.counted_wellFormed hname) h.2
    have hterm := negateTerms_isTerm
      (List.forall_mem_append.mpr ⟨elementTerms_isTerm h.1, hinner⟩)
    simpa [Qualifier.terms] using hterm

theorem Qualifier.allTerms_isTerm (qualifiers : List Qualifier) {scope : Scope}
    (hscope : scope.WellFormed)
    (h : Qualifier.AllEach ElementTest.Named Qualifier.AttributeNamed qualifiers) :
    ∀ e ∈ Qualifier.allTerms scope qualifiers, IsTerm e := by
  match qualifiers with
  | [] => simp [Qualifier.allTerms]
  | q :: rest =>
    simp only [Qualifier.allTerms, List.mem_append, or_imp, forall_and]
    exact ⟨Qualifier.terms_isTerm q hscope h.1, Qualifier.allTerms_isTerm rest hscope h.2⟩

end

/-! ## Selectors -/

/-- Element tests and attributes have names. -/
def Compound.XPathNamed (compound : Compound) : Prop :=
  compound.Each ElementTest.Named Qualifier.AttributeNamed

/-- There is a step, and element tests and attributes have names. -/
structure Selector.XPathNamed (selector : Selector) : Prop where
  ne_nil : selector.steps ≠ []
  steps : ∀ step ∈ selector.steps, step.compound.XPathNamed

theorem Qualifier.Named.attributeNamed {q : Qualifier} (h : q.Named) : q.AttributeNamed := by
  cases q with
  | attributeTest test => cases test <;> exact h
  | className | id | place | nth | negation => trivial

theorem Selector.WellFormed.xpathNamed {selector : Selector} (h : selector.WellFormed) :
    selector.XPathNamed := by
  refine ⟨h.ne_nil, fun step hstep => ?_⟩
  have hnamed := h.named step hstep
  exact ⟨hnamed.element, Qualifier.AllEach.mono (fun _ => Qualifier.Named.attributeNamed) _
    hnamed.qualifiers⟩

theorem Compound.layout_isTerm {compound : Compound} (h : compound.XPathNamed)
    (toChildren : Bool) : ∀ terms ∈ compound.layout toChildren, ∀ e ∈ terms, IsTerm e := by
  have hname := elementTerms_isTerm h.element
  have hall {scope : Scope} (hscope : scope.WellFormed) {qualifiers : List Qualifier}
      (hsub : ∀ q ∈ qualifiers, q ∈ compound.qualifiers) :
      ∀ e ∈ Qualifier.allTerms scope qualifiers, IsTerm e := by
    refine Qualifier.allTerms_isTerm qualifiers hscope (Qualifier.allEach_iff.mpr fun q hq => ?_)
    exact Qualifier.allEach_iff.mp h.qualifiers q (hsub q hq)
  have hcounted := Scope.counted_wellFormed h.element
  have hchild : Scope.WellFormed ⟨.exact, .counted (Scope.typeTest _), _⟩ :=
    ⟨trivial, Scope.typeTest_wellFormed h.element, h.element⟩
  have htype : Scope.WellFormed ⟨.counted .any, .exact, _⟩ := ⟨trivial, trivial, h.element⟩
  unfold layout
  dsimp only
  split
  · simp only [List.mem_singleton, forall_eq]
    exact List.forall_mem_append.mpr ⟨hname, hall hcounted fun _ hq => hq⟩
  · split
    · simp only [List.mem_singleton, forall_eq]
      exact List.forall_mem_append.mpr ⟨hname, hall hchild fun _ hq => hq⟩
    · simp only [List.forall_mem_cons, List.not_mem_nil, false_implies, implies_true, and_true]
      refine ⟨hname, hall htype ?_, hall hcounted ?_⟩
      · exact fun q hq => (List.mem_filter.mp hq).1
      · exact fun q hq => (List.mem_filter.mp hq).1

theorem Compound.brackets_wellFormed {compound : Compound} (h : compound.XPathNamed)
    (toChildren : Bool) : ∀ terms ∈ compound.brackets toChildren, TermsWellFormed terms := by
  have hlayout := compound.layout_isTerm h toChildren
  intro terms hterms
  obtain ⟨hmem, hne⟩ := List.mem_filter.mp hterms
  exact termsWellFormed_of_isTerm (by simpa using hne) (hlayout terms hmem)

theorem Step.path_wellFormed {step : Step} (h : step.compound.XPathNamed) :
    ∀ s ∈ step.path, s.WellFormed := by
  have hbrackets := step.compound.brackets_wellFormed h step.combinator.leadsToChildren
  have hfirst : TermsWellFormed [Position.exact.first] := by
    have hterm : IsTerm Position.exact.first := Position.first_isTerm trivial
    exact ⟨by simp, ⟨hterm.wellFormed, trivial⟩, by simpa using hterm.level⟩
  have hstep (axis : Axis) {brackets : List (List Expr)}
      (h : ∀ terms ∈ brackets, TermsWellFormed terms) :
      (XPath.Step.mk axis .any brackets).WellFormed := ⟨trivial, h⟩
  unfold path
  split
  · exact List.forall_mem_cons.mpr ⟨hstep _ (by simp), by simpa using hstep _ hbrackets⟩
  · simpa using hstep _ hbrackets
  · simpa using hstep _ (List.forall_mem_cons.mpr ⟨hfirst, hbrackets⟩)
  · simpa using hstep _ hbrackets

theorem Step.path_ne_nil (step : Step) : step.path ≠ [] := by
  unfold path
  split <;> simp

/-- The path of a selector with names is well-formed. -/
theorem Selector.XPathNamed.path {selector : Selector} (h : selector.XPathNamed)
    (anchor : Anchor) : (selector.path anchor).WellFormed := by
  constructor
  · obtain ⟨step, hstep⟩ := List.exists_mem_of_ne_nil _ h.ne_nil
    intro hnil
    exact step.path_ne_nil (List.flatMap_eq_nil_iff.mp hnil step hstep)
  · intro s hs
    obtain ⟨step, hstep, hs⟩ := List.mem_flatMap.mp hs
    exact step.path_wellFormed (h.steps step hstep) s hs

end SelectorPath
