import SelectorPath.Proofs.Selector.Recognition

/-!
What holds of every selector that a text gives, under either policy: there is a step, and the
first leads to descendants or children, no compound is empty, names are made of the characters of
names, numbers have a negative with 64 bits, negations are not nested too deep, and tests of the
position among siblings of the same name stand where a name holds.
-/

namespace SelectorPath

open Text Grammar Lexicon

/-! ## Names -/

mutual

/-- What holds of all element tests and of all qualifiers but negations, at any depth. -/
def Qualifier.Each (E : Option ElementTest → Prop) (P : Qualifier → Prop) : Qualifier → Prop
  | .negation element qualifiers => E element ∧ Qualifier.AllEach E P qualifiers
  | q => P q

def Qualifier.AllEach (E : Option ElementTest → Prop) (P : Qualifier → Prop) :
    List Qualifier → Prop
  | [] => True
  | q :: rest => q.Each E P ∧ Qualifier.AllEach E P rest

end

theorem Qualifier.allEach_iff {E : Option ElementTest → Prop} {P : Qualifier → Prop}
    {qualifiers : List Qualifier} :
    Qualifier.AllEach E P qualifiers ↔ ∀ q ∈ qualifiers, q.Each E P := by
  induction qualifiers with
  | nil => simp [Qualifier.AllEach]
  | cons q rest ih => simp [Qualifier.AllEach, ih]

mutual

theorem Qualifier.Each.mono {E : Option ElementTest → Prop} {P Q : Qualifier → Prop}
    (hPQ : ∀ q, P q → Q q) (q : Qualifier) (h : q.Each E P) : q.Each E Q := by
  match q with
  | .negation element qualifiers => exact ⟨h.1, Qualifier.AllEach.mono hPQ qualifiers h.2⟩
  | .className _ | .id _ | .attributeTest _ | .place _ _ | .nth _ _ => exact hPQ _ h

theorem Qualifier.AllEach.mono {E : Option ElementTest → Prop} {P Q : Qualifier → Prop}
    (hPQ : ∀ q, P q → Q q) (qualifiers : List Qualifier) (h : Qualifier.AllEach E P qualifiers) :
    Qualifier.AllEach E Q qualifiers := by
  match qualifiers with
  | [] => trivial
  | q :: rest => exact ⟨Qualifier.Each.mono hPQ q h.1, Qualifier.AllEach.mono hPQ rest h.2⟩

end

structure Compound.Each (E : Option ElementTest → Prop) (P : Qualifier → Prop)
    (compound : Compound) : Prop where
  element : E compound.element
  qualifiers : Qualifier.AllEach E P compound.qualifiers

def ElementTest.Named (element : Option ElementTest) : Prop :=
  ∀ name, ElementTest.name? element = some name → Headed isNameStart isNamePart name.toList

/-- The names in a qualifier are made of the characters of names. -/
def Qualifier.Named : Qualifier → Prop
  | .className name | .id name => Headed isNamePart isNamePart name.toList
  | .attributeTest (.present name) | .attributeTest (.compare name _ _) =>
    Headed isNameStart isAttributePart name.toList
  | _ => True

def Compound.Named (compound : Compound) : Prop :=
  compound.Each ElementTest.Named Qualifier.Named

theorem elementText_named {s : List Char} {element : Option ElementTest}
    (h : ElementText s element) : ElementTest.Named element := by
  intro name hname
  cases h with
  | absent | universal => simp [ElementTest.name?] at hname
  | named hs =>
    obtain rfl := Option.some.inj hname
    simpa using hs

theorem plainText_named {s : List Char} {q : Qualifier} (h : PlainText s q) :
    q.Each ElementTest.Named Qualifier.Named := by
  cases h with
  | className hs | id hs => simpa [Qualifier.Each, Qualifier.Named] using hs
  | attributeTest hs =>
    cases hs with
    | present _ hname _ | compare _ hname _ _ _ _ _ =>
      simpa [Qualifier.Each, Qualifier.Named] using hname
  | place | nth => trivial

theorem qualifiersText_named {s : List Char} {qualifiers : List Qualifier}
    (h : QualifiersText s qualifiers) :
    Qualifier.AllEach ElementTest.Named Qualifier.Named qualifiers := by
  induction h with
  | nil => trivial
  | plain hq _ ih => exact ⟨plainText_named hq, ih⟩
  | negation _ _ he _ _ _ _ ihq ihrest => exact ⟨⟨elementText_named he, ihq⟩, ihrest⟩

theorem compoundText_named {s : List Char} {compound : Compound} (h : CompoundText s compound) :
    compound.Named := by
  obtain ⟨v, e, t, rfl, -, he, ht, -⟩ := h
  exact ⟨elementText_named he, qualifiersText_named ht⟩

/-! ## Arguments of negations -/

mutual

/-- The compounds in negations are not empty. -/
def Qualifier.Filled : Qualifier → Prop
  | .negation element qualifiers =>
    (⟨element, qualifiers⟩ : Compound).Nonempty ∧ Qualifier.AllFilled qualifiers
  | _ => True

def Qualifier.AllFilled : List Qualifier → Prop
  | [] => True
  | q :: rest => q.Filled ∧ Qualifier.AllFilled rest

end

/-- Neither a compound nor one in its negations is empty. -/
structure Compound.Filled (compound : Compound) : Prop where
  nonempty : compound.Nonempty
  qualifiers : Qualifier.AllFilled compound.qualifiers

theorem plainText_filled {s : List Char} {q : Qualifier} (h : PlainText s q) : q.Filled := by
  cases h <;> trivial

theorem qualifiersText_filled {s : List Char} {qualifiers : List Qualifier}
    (h : QualifiersText s qualifiers) : Qualifier.AllFilled qualifiers := by
  induction h with
  | nil => trivial
  | plain hq _ ih => exact ⟨plainText_filled hq, ih⟩
  | negation _ _ _ _ hn _ _ ihq ihrest => exact ⟨⟨hn, ihq⟩, ihrest⟩

theorem compoundText_filled {s : List Char} {compound : Compound} (h : CompoundText s compound) :
    compound.Filled := by
  obtain ⟨v, e, t, rfl, -, -, ht, hn⟩ := h
  exact ⟨hn, qualifiersText_filled ht⟩

/-! ## Numbers -/

/-- A number whose negative has 64 bits, too. -/
def Formula.NumberInRange (n : Int64) : Prop := -(2 ^ 63 - 1) ≤ n.toInt ∧ n.toInt ≤ 2 ^ 63 - 1

instance (n : Int64) : Decidable (Formula.NumberInRange n) :=
  inferInstanceAs (Decidable (_ ∧ _))

def Formula.InRange : Formula → Prop
  | .linear coefficient constant => NumberInRange coefficient ∧ NumberInRange constant
  | _ => True

def Qualifier.InRange : Qualifier → Prop
  | .nth formula _ => formula.InRange
  | _ => True

def Compound.InRange (compound : Compound) : Prop :=
  compound.Each (fun _ => True) Qualifier.InRange

theorem toInt_ofInt {n : Nat} (h : n < 2 ^ 63) : (Int64.ofInt n).toInt = n :=
  Int64.toInt_ofInt_of_le (by omega) (by omega)

theorem toInt_signed {n : Nat} (h : n < 2 ^ 63) (negative : Bool) :
    (signed negative (Int64.ofInt n)).toInt = if negative then -(n : Int) else n := by
  cases negative with
  | false => exact toInt_ofInt h
  | true =>
    rw [signed, if_pos rfl, if_pos rfl, ← Int64.ofInt_neg]
    exact Int64.toInt_ofInt_of_le (by omega) (by omega)

theorem numberText_inRange {s : List Char} {magnitude : Int64} (h : NumberText s magnitude)
    (negative : Bool) : Formula.NumberInRange (signed negative magnitude) := by
  obtain ⟨n, -, hn, rfl⟩ := h
  rw [Formula.NumberInRange, toInt_signed hn]
  cases negative <;> simp <;> omega

theorem formulaText_inRange {s : List Char} {formula : Formula} (h : FormulaText s formula) :
    formula.InRange := by
  obtain ⟨v, body, w, -, -, hbody, -⟩ := h
  have hzero : Formula.NumberInRange 0 := by decide
  cases hbody with
  | even | odd => trivial
  | position _ hdigits => exact ⟨hzero, numberText_inRange hdigits _⟩
  | linear hcoefficient _ hconstant =>
    constructor
    · cases hcoefficient with
      | @sign _ negative _ => cases negative <;> decide
      | digits _ hdigits => exact numberText_inRange hdigits _
    · cases hconstant with
      | absent => exact hzero
      | present _ _ _ hdigits => exact numberText_inRange hdigits _

theorem plainText_inRange {s : List Char} {q : Qualifier} (h : PlainText s q) :
    q.Each (fun _ => True) Qualifier.InRange := by
  cases h with
  | nth _ hformula => exact formulaText_inRange hformula
  | className | id | attributeTest | place => trivial

theorem qualifiersText_inRange {s : List Char} {qualifiers : List Qualifier}
    (h : QualifiersText s qualifiers) :
    Qualifier.AllEach (fun _ => True) Qualifier.InRange qualifiers := by
  induction h with
  | nil => trivial
  | plain hq _ ih => exact ⟨plainText_inRange hq, ih⟩
  | negation _ _ _ _ _ _ _ ihq ihrest => exact ⟨⟨trivial, ihq⟩, ihrest⟩

theorem compoundText_inRange {s : List Char} {compound : Compound}
    (h : CompoundText s compound) : compound.InRange := by
  obtain ⟨v, e, t, rfl, -, -, ht, -⟩ := h
  exact ⟨trivial, qualifiersText_inRange ht⟩

/-! ## Selectors -/

/-- What readers give. -/
structure Selector.WellFormed (selector : Selector) : Prop where
  ne_nil : selector.steps ≠ []
  first : ∀ step, selector.steps.head? = some step →
    step.combinator = .descendant ∨ step.combinator = .child
  filled : ∀ step ∈ selector.steps, step.compound.Filled
  inRange : ∀ step ∈ selector.steps, step.compound.InRange
  named : ∀ step ∈ selector.steps, step.compound.Named
  bounded : ∀ step ∈ selector.steps, step.compound.Bounded

/-- What holds of the compounds in a selector. -/
theorem selectorText_forall {P : Compound → Prop}
    (hP : ∀ {s compound}, CompoundText s compound → P compound) {s : List Char}
    {selector : Selector} (h : SelectorText s selector) :
    ∀ step ∈ selector.steps, P step.compound := by
  have hsteps : ∀ {s steps}, StepsText s steps → ∀ step ∈ steps, P step.compound := by
    intro s steps h
    induction h with
    | nil => simp
    | cons _ hcompound _ ih => exact List.forall_mem_cons.mpr ⟨hP hcompound, ih⟩
  obtain ⟨-, hcompound, hrest⟩ := h
  exact List.forall_mem_cons.mpr ⟨hP hcompound, hsteps hrest⟩

theorem Selector.read_wellFormed {c after : Cursor} {selector : Selector}
    (h : read standard c = .ok (selector, after)) : selector.WellFormed := by
  obtain ⟨s, -, hs, hbounded⟩ := read_sound h
  refine ⟨?_, ?_, selectorText_forall compoundText_filled hs,
    selectorText_forall compoundText_inRange hs, selectorText_forall compoundText_named hs,
    hbounded⟩
  · obtain ⟨-, -, -⟩ := hs
    simp
  · obtain ⟨hscope, -, -⟩ := hs
    simp only [List.head?_cons, Option.some.injEq, forall_eq']
    cases hscope with
    | absent => exact .inl rfl
    | child => exact .inr rfl

/-! ## Lists -/

/-- What holds of the items of a loop with separators. There is at least one. -/
theorem Cursor.readSeparated_forall {α : Type} {Q : α → Prop} {separator : Cursor → Option Cursor}
    {item : Reader α} (hitem : ∀ c a d, item c = .ok (a, d) → Q a) {c last : Cursor}
    {items : List α} (h : c.readSeparated separator item = .ok (items, last)) :
    items ≠ [] ∧ ∀ a ∈ items, Q a := by
  refine readSeparated_induction (Q := fun _ items _ => items ≠ [] ∧ ∀ a ∈ items, Q a) ?_ ?_ h
  · intro c a d ha
    exact ⟨by simp, by simpa using hitem c a d ha⟩
  · rintro c a d e rest last ha - ⟨-, hrest⟩
    exact ⟨by simp, List.forall_mem_cons.mpr ⟨hitem c a d ha, hrest⟩⟩

namespace SelectorList

theorem readMember_wellFormed {policy : ListPolicy} {c after : Cursor} {member : Member}
    (h : readMember standard policy c = .ok (member, after)) :
    ∀ selector, member.kept? = some selector → selector.WellFormed := by
  intro selector hkept
  rcases readMember_cases h with ⟨selector', hread, rfl⟩ | ⟨error, hskip⟩
  · obtain rfl := Option.some.inj hkept
    exact Selector.read_wellFormed hread
  · obtain ⟨rfl, -⟩ := Prod.mk.inj hskip
    simp [Member.kept?] at hkept

/-- The selectors that a text gives under either policy are well-formed, and there is one. -/
theorem ofText_wellFormed {options : Options} {text : String} {list : SelectorList}
    (h : ofText standard options text = .ok list) :
    list.selectors ≠ [] ∧ ∀ selector ∈ list.selectors, selector.WellFormed := by
  obtain ⟨-, last, hread, -⟩ := ofText_eq_ok_iff.mp h
  obtain ⟨members, hmembers, hlist⟩ := read_eq_ok_iff.mp hread
  obtain ⟨hne, hall⟩ := Cursor.readSeparated_forall
    (fun _ _ _ => readMember_wellFormed) hmembers
  obtain ⟨hsome, rfl⟩ := ofMembers_eq_ok_iff.mp hlist
  refine ⟨hsome hne, fun selector hselector => ?_⟩
  obtain ⟨member, hmember, hkept⟩ := List.mem_filterMap.mp hselector
  exact hall member hmember selector hkept

end SelectorList

end SelectorPath
