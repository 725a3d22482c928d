import SelectorPath.CommandLine.Run
import SelectorPath.Proofs.Selector.Policies

/-!
Where errors point. `SelectorError.Names` says what an error claims to stand at its position, and
`SelectorError.PointsInto` that this is so in a text. All readers only report such errors and only
lead to places of the text (`Reports`), so the same holds of the errors of a list and of the
members that it leaves out (`SelectorList.reported_pointsAfter`).
-/

namespace SelectorPath

open Text Grammar Lexicon

/-! ## What errors name -/

/-- A text starts with a pseudo-class of a name, in which the case of ASCII letters does not
count. -/
def StartsPseudoClass (name rest : List Char) : Prop :=
  ∃ written after, rest = ':' :: (written ++ after) ∧
    written.map Char.toLower = name.map Char.toLower

/-- What an error says about the text from its position on. -/
def SelectorError.Names : SelectorError → List Char → Prop
  | .unexpected _ _, _ => True
  | .unsupportedPseudoClass _ name, rest => StartsPseudoClass name.toList rest
  | .unsupportedOperator _ operator, rest =>
    operator.toList <+: rest ∧ operator ∉ ["=", "~=", "|=", "^=", "$=", "*="]
  | .nestedTooDeep _ _, rest => StartsPseudoClass ['n', 'o', 't'] rest
  | .trailing _ text, rest => text.toList = rest ∧ rest ≠ [] ∧ headIs isSpace rest = false
  | .tooLong _ _, _ => False

/-- An error names what stands in a text after its first part. -/
structure SelectorError.PointsAfter (e : SelectorError) (input before rest : List Char) : Prop where
  input : input = before ++ rest
  position : e.position = byteLength before
  names : e.Names rest

def SelectorError.PointsInto (e : SelectorError) (input : List Char) : Prop :=
  ∃ before rest, e.PointsAfter input before rest

/-! ## Errors at places -/

namespace Cursor.In

variable {input : List Char} {c : Cursor}

/-- An error at a place that names what stands there. -/
theorem points {e : SelectorError} (h : c.In input) (hposition : e.position = c.offset)
    (hnames : e.Names c.rest) : e.PointsInto input := by
  obtain ⟨before, hbefore⟩ := h
  have hoffset : c.offset = byteLength before := by simpa using hbefore.offset
  exact ⟨before, c.rest, hbefore.rest, hposition.trans hoffset, hnames⟩

theorem unexpected (h : c.In input) (expected : Expectation) :
    (SelectorError.unexpected c.offset expected).PointsInto input :=
  h.points rfl trivial

end Cursor.In

/-! ## What readers report -/

/-- An error that points into the text, or a result with some property. -/
def Reports (input : List Char) {α : Type} (P : α → Prop) : Except SelectorError α → Prop
  | .error e => e.PointsInto input
  | .ok a => P a

/-- A reader reports errors that point into the text, and leads to places of the text. -/
def Keeps (input : List Char) {α : Type} (reader : Reader α) : Prop :=
  ∀ c, c.In input → Reports input (fun result => result.2.In input) (reader c)

namespace Reports

variable {input : List Char} {α β : Type} {P : α → Prop} {Q : β → Prop}

theorem bind {x : Except SelectorError α} {f : α → Except SelectorError β}
    (h : Reports input P x) (hf : ∀ a, P a → Reports input Q (f a)) :
    Reports input Q (x >>= f) := by
  cases x with
  | error e => exact h
  | ok a => exact hf a h

theorem map {x : Except SelectorError α} {f : α → β} (h : Reports input P x)
    (hf : ∀ a, P a → Q (f a)) : Reports input Q (x.map f) := by
  cases x with
  | error e => exact h
  | ok a => exact hf a h

theorem mono {P' : α → Prop} {x : Except SelectorError α} (h : Reports input P x)
    (hP : ∀ a, P a → P' a) : Reports input P' x := by
  cases x with
  | error e => exact h
  | ok a => exact hP a h

theorem expect {c : Cursor} (h : c.In input) (kind : TokenKind) (expected : Expectation) :
    Reports input (Cursor.In input) (standard.expect kind expected c) := by
  unfold Lexicon.expect
  cases htoken : standard.token kind c with
  | none => exact h.unexpected expected
  | some found => exact h.token htoken

end Reports

section Readers

variable {input : List Char}

/-! ## Formulas -/

namespace Formula

theorem signedInteger_reports {c : Cursor} (h : c.In input) (digits : List Char)
    (negative : Bool) : Reports input (fun _ => True) (signedInteger digits negative c) := by
  unfold signedInteger
  cases Text.int64? digits with
  | none => exact h.unexpected .integer
  | some magnitude => trivial

theorem readConstant_keeps (coefficient : Int64) :
    Keeps input (readConstant standard coefficient) := by
  intro c h
  unfold readConstant
  cases hsign : standard.token .sign (standard.skip .spaces c) with
  | none => exact h
  | some found =>
    obtain ⟨sign, after⟩ := found
    have hafter : (standard.skip .spaces after).In input :=
      ((h.skip .spaces).token hsign).skip .spaces
    simp only
    cases hdigits : standard.token .number (standard.skip .spaces after) with
    | none => exact hafter.unexpected .constant
    | some found =>
      refine (signedInteger_reports hafter _ _).bind fun constant _ => ?_
      exact hafter.token hdigits

theorem readSign_in {c : Cursor} (h : c.In input) : (readSign standard c).2.In input := by
  unfold readSign
  cases hsign : standard.token .sign c with
  | none => exact h
  | some found => exact h.token hsign

theorem readDigits_in {c : Cursor} (h : c.In input) : (readDigits standard c).2.In input := by
  unfold readDigits
  cases hdigits : standard.token .number c with
  | none => exact h
  | some found => exact h.token hdigits

theorem readLinear_keeps : Keeps input (readLinear standard) := by
  intro c h
  have hsign := readSign_in h
  have hdigits := readDigits_in hsign
  unfold readLinear
  simp only
  cases hn : standard.token .n (readDigits standard (readSign standard c).2).2 with
  | none =>
    cases (readDigits standard (readSign standard c).2).1 with
    | none => exact hsign.unexpected .formula
    | some digits => exact (signedInteger_reports hsign _ _).bind fun constant _ => hdigits
  | some found =>
    have hafter := hdigits.token hn
    cases (readDigits standard (readSign standard c).2).1 with
    | none => exact readConstant_keeps _ _ hafter
    | some digits =>
      refine (signedInteger_reports hsign _ _).bind fun coefficient _ => ?_
      exact readConstant_keeps coefficient _ hafter

theorem readBody_keeps : Keeps input (readBody standard) := by
  intro c h
  unfold readBody
  cases heven : standard.token .even c with
  | some found => exact h.token heven
  | none =>
    simp only
    cases hodd : standard.token .odd c with
    | some found => exact h.token hodd
    | none => exact readLinear_keeps c h

theorem read_keeps : Keeps input (read standard) := by
  intro c h
  refine (Reports.expect h _ _).bind fun c h => ?_
  refine (readBody_keeps _ (h.skip .spaces)).bind ?_
  rintro ⟨formula, c⟩ h
  exact (Reports.expect (h.skip .spaces) _ _).bind fun c h => h

end Formula

/-! ## Attribute tests -/

namespace AttributeTest

theorem readValue_keeps : Keeps input (readValue standard) := by
  intro c h
  unfold readValue
  cases hquoted : standard.token .attributeValue c with
  | some found => exact h.token hquoted
  | none =>
    simp only
    cases hname : standard.token .identifier c with
    | some found => exact h.token hname
    | none => exact h.unexpected .attributeValue

/-- The texts of the operators are those that stand for one. -/
theorem operator_supported {operator : String}
    (h : operator ∈ ["=", "~=", "|=", "^=", "$=", "*="]) :
    AttributeOperator.ofText? operator.toList ≠ none := by
  simp only [List.mem_cons, List.not_mem_nil, or_false] at h
  rcases h with rfl | rfl | rfl | rfl | rfl | rfl <;> decide

theorem readComparison_keeps (name : String) : Keeps input (readComparison standard name) := by
  intro c h
  unfold readComparison
  cases hclosing : standard.token .rightBracket c with
  | some found => exact h.token hclosing
  | none =>
    simp only
    cases hsign : standard.token .attributeOperator c with
    | none => exact h.unexpected .attributeOperator
    | some found =>
      obtain ⟨sign, after⟩ := found
      simp only
      cases hoperator : AttributeOperator.ofText? sign with
      | none =>
        obtain ⟨-, ht, -⟩ := token_iff.mp hsign
        refine h.points rfl ⟨⟨after.rest, ?_⟩, fun hsupported => ?_⟩
        · rw [String.toList_ofList, ht.rest]
        · exact operator_supported hsupported (by rw [String.toList_ofList, hoperator])
      | some operator =>
        refine (readValue_keeps _ ((h.token hsign).skip .spaces)).bind ?_
        rintro ⟨value, c⟩ h
        exact (Reports.expect (h.skip .spaces) _ _).bind fun c h => h

theorem read_keeps : Keeps input (read standard) := by
  intro c h
  refine (Reports.expect h _ _).bind fun c h => ?_
  simp only
  cases hname : standard.token .attributeName (standard.skip .spaces c) with
  | none => exact (h.skip .spaces).unexpected .attributeName
  | some found => exact readComparison_keeps _ _ (((h.skip .spaces).token hname).skip .spaces)

end AttributeTest

/-! ## Loops -/

/-- The items of a loop have a property at the places where they start. -/
def ItemsAt (input : List Char) {α : Type} (P : Cursor → α → Prop) (items : List (Nat × α)) :
    Prop :=
  ∀ item ∈ items, ∃ c : Cursor, c.In input ∧ item.1 = c.offset ∧ P c item.2

/-- An item that may be missing has a property and leads to a place of the text. -/
def KeepsItem (input : List Char) {α : Type} (P : Cursor → α → Prop)
    (item : Cursor → Except SelectorError (Option (α × Cursor))) : Prop :=
  ∀ c, c.In input →
    Reports input (fun found => ∀ result ∈ found, P c result.1 ∧ result.2.In input) (item c)

theorem Cursor.readWhile_keeps {α : Type} {P : Cursor → α → Prop}
    {item : Cursor → Except SelectorError (Option (α × Cursor))} (hitem : KeepsItem input P item)
    {c : Cursor} (h : c.In input) :
    Reports input (fun result => ItemsAt input P result.1 ∧ result.2.In input)
      (c.readWhile item) := by
  have hfirst := hitem c h
  fun_induction c.readWhile item with
  | case1 c e hc =>
    rw [hc] at hfirst
    exact hfirst
  | case2 c hc => exact ⟨by simp [ItemsAt], h⟩
  | case3 c a after hc _ e hloop ih =>
    rw [hc] at hfirst
    have hafter := (hfirst _ rfl).2
    exact hloop ▸ ih hafter (hitem after hafter)
  | case4 c a after hc _ rest last hloop ih =>
    rw [hc] at hfirst
    obtain ⟨hP, hafter⟩ := hfirst _ rfl
    have hrest := ih hafter (hitem after hafter)
    rw [hloop] at hrest
    exact ⟨List.forall_mem_cons.mpr ⟨⟨c, h, rfl, hP⟩, hrest.1⟩, hrest.2⟩
  | case5 c => exact ⟨by simp [ItemsAt], h⟩

/-! ## Qualifiers -/

namespace Qualifier

/-- A test of the position among siblings of the same name is written as its pseudo-class. -/
def NamedAt (c : Cursor) (q : Qualifier) : Prop :=
  ∀ pseudoClass ∈ q.sameType?, StartsPseudoClass pseudoClass.name.toList c.rest

/-- The pseudo-class at a place, by its name. -/
theorem starts_of_token {c after : Cursor} {text name : List Char}
    (htoken : standard.token .pseudoClass c = some (text, after))
    (hname : text.tail.map Char.toLower = name.map Char.toLower) :
    StartsPseudoClass name c.rest := by
  obtain ⟨⟨t, rfl, -⟩, ht, -⟩ := token_iff.mp htoken
  exact ⟨t, after.rest, ht.rest, hname⟩

theorem map_toLower_toLower (s : List Char) :
    (s.map Char.toLower).map Char.toLower = s.map Char.toLower := by
  rw [List.map_map]
  refine List.map_congr_left fun c _ => ?_
  rw [Function.comp_apply, ← Char.toNat_inj, toNat_toLower, toNat_toLower]
  split_ifs <;> omega

/-- The name of the pseudo-class that a text stands for is that text. -/
theorem starts_of_ofName? {c after : Cursor} {text : List Char} {pseudoClass : PseudoClass}
    (htoken : standard.token .pseudoClass c = some (text, after))
    (hname : PseudoClass.ofName? (String.ofList (text.tail.map Char.toLower)) = some pseudoClass) :
    StartsPseudoClass pseudoClass.name.toList c.rest := by
  refine starts_of_token htoken ?_
  have hfound := PseudoClass.ofName?_iff.mp hname
  rw [hfound, String.toList_ofList, map_toLower_toLower]

theorem readNegation_reports {argument : Reader Compound} (hargument : Keeps input argument)
    {c : Cursor} (h : c.In input) :
    Reports input (fun result => result.1.sameType? = none ∧ result.2.In input)
      (readNegation standard argument c) := by
  refine (Reports.expect h _ _).bind fun c h => ?_
  refine (hargument c h).bind ?_
  rintro ⟨compound, c⟩ h
  exact (Reports.expect (h.skip .spaces) _ _).bind fun c h => ⟨rfl, h⟩

theorem namedAt_of_none {q : Qualifier} (h : q.sameType? = none) (c : Cursor) : NamedAt c q := by
  simp [NamedAt, h]

/-- Only a test that is written as a pseudo-class is one among siblings of the same name. -/
theorem namedAt_of_pseudoClass {c : Cursor} {q : Qualifier} {pseudoClass : PseudoClass}
    (hq : q.pseudoClass? = some pseudoClass)
    (hstarts : StartsPseudoClass pseudoClass.name.toList c.rest) : NamedAt c q := by
  intro found hfound
  have hsame : q.pseudoClass? = some found := by
    cases q with
    | place p among => cases among <;> simp_all [sameType?, pseudoClass?]
    | nth formula among => cases among <;> simp_all [sameType?, pseudoClass?]
    | _ => simp [sameType?] at hfound
  rwa [← Option.some.inj (hq.symm.trans hsame)]

theorem readPseudoClass_reports {argument : Option (Reader Compound)}
    (hargument : ∀ reader ∈ argument, Keeps input reader) {c : Cursor} (h : c.In input) :
    Reports input (fun result => NamedAt c result.1 ∧ result.2.In input)
      (readPseudoClass standard argument c) := by
  unfold readPseudoClass
  cases htoken : standard.token .pseudoClass c with
  | none => exact h.unexpected .pseudoClass
  | some found =>
    obtain ⟨text, after⟩ := found
    have hafter := h.token htoken
    simp only
    cases hname : PseudoClass.ofName? (String.ofList (text.tail.map Char.toLower)) with
    | none =>
      refine h.points rfl (starts_of_token htoken ?_)
      rw [String.toList_ofList]
    | some pseudoClass =>
      have hstarts := starts_of_ofName? htoken hname
      cases pseudoClass with
      | place p among => exact ⟨namedAt_of_pseudoClass rfl hstarts, hafter⟩
      | nth among =>
        refine (Formula.read_keeps _ hafter).bind ?_
        rintro ⟨formula, d⟩ hd
        exact ⟨namedAt_of_pseudoClass rfl hstarts, hd⟩
      | negation =>
        cases argument with
        | none => exact h.points rfl hstarts
        | some argument =>
          refine (readNegation_reports (hargument argument rfl) hafter).mono fun result hresult => ?_
          exact ⟨namedAt_of_none hresult.1 c, hresult.2⟩

theorem read?_keeps {argument : Option (Reader Compound)}
    (hargument : ∀ reader ∈ argument, Keeps input reader) :
    KeepsItem input NamedAt (read? standard argument) := by
  intro c h
  unfold read?
  cases hclass : standard.token .className c with
  | some found =>
    rintro _ ⟨⟩
    exact ⟨namedAt_of_none rfl c, h.token hclass⟩
  | none =>
    simp only
    cases hid : standard.token .id c with
    | some found =>
      rintro _ ⟨⟩
      exact ⟨namedAt_of_none rfl c, h.token hid⟩
    | none =>
      simp only
      split
      · refine (readPseudoClass_reports hargument h).map ?_
        rintro result hresult _ ⟨⟩
        exact hresult
      · split
        · refine (AttributeTest.read_keeps c h).map ?_
          rintro result hresult _ ⟨⟩
          exact ⟨namedAt_of_none rfl c, hresult⟩
        · rintro _ ⟨⟩

end Qualifier

/-! ## Compounds -/

namespace Compound

theorem readElement_in {c : Cursor} (h : c.In input) : (readElement standard c).2.In input := by
  unfold readElement
  cases huniversal : standard.token .universal c with
  | some found => exact h.token huniversal
  | none =>
    simp only
    cases hname : standard.token .element c with
    | some found => exact h.token hname
    | none => exact h

theorem check_reports {start : Cursor} (h : start.In input) (element : Option ElementTest)
    (name : Option String) {items : List (Nat × Qualifier)}
    (hitems : ItemsAt input Qualifier.NamedAt items) :
    Reports input (fun _ => True) (check start element name items) := by
  unfold check
  split
  · exact h.unexpected .compound
  · cases name with
    | some name => trivial
    | none =>
      cases hfound : items.findSome? fun item => item.2.sameType?.map (item.1, ·) with
      | none => trivial
      | some found =>
        -- The first such test stands at the offset where its item starts.
        obtain ⟨item, hitem, hsome⟩ := List.exists_of_findSome?_eq_some hfound
        obtain ⟨pseudoClass, hsame, rfl⟩ := Option.map_eq_some_iff.mp hsome
        obtain ⟨c, hc, hoffset, hnamed⟩ := hitems item hitem
        exact hc.points hoffset (hnamed pseudoClass hsame)

theorem readWith_keeps {argument : Option String → Option (Reader Compound)}
    (hargument : ∀ name, ∀ reader ∈ argument name, Keeps input reader)
    (enclosing : Option String) : Keeps input (readWith standard argument enclosing) := by
  intro c h
  unfold readWith
  refine (Cursor.readWhile_keeps (Qualifier.read?_keeps (hargument _))
    (readElement_in (h.skip .spaces))).bind ?_
  rintro ⟨items, c⟩ ⟨hitems, hc⟩
  exact (check_reports (h.skip .spaces) _ _ hitems).bind fun compound _ => hc

theorem readNested_keeps (levels : Nat) (enclosing : Option String) :
    Keeps input (readNested standard levels enclosing) := by
  induction levels generalizing enclosing with
  | zero => exact readWith_keeps (by simp) enclosing
  | succ levels ih =>
    refine readWith_keeps ?_ enclosing
    rintro name _ ⟨⟩
    exact ih name

end Compound

/-! ## Selectors -/

theorem Step.read?_keeps : KeepsItem input (fun _ _ => True) (Step.read? standard) := by
  intro c h
  unfold Step.read?
  cases hcombinator : Combinator.read? standard c with
  | none =>
    rintro _ ⟨⟩
  | some found =>
    obtain ⟨s, ht, -⟩ := Combinator.read?_sound hcombinator
    refine (Compound.readNested_keeps _ _ _ (h.take ht)).map ?_
    rintro result hresult _ ⟨⟩
    exact ⟨trivial, hresult⟩

theorem Selector.read_keeps : Keeps input (Selector.read standard) := by
  intro c h
  have hsteps (combinator : Combinator) (c : Cursor) (h : c.In input) :
      Reports input (fun result => result.2.In input) (do
        let x ← Compound.read standard c
        let y ← x.2.readWhile (Step.read? standard)
        return ((⟨⟨combinator, x.1⟩ :: y.1.map Prod.snd⟩ : Selector), y.2)) := by
    refine (Compound.readNested_keeps _ _ c h).bind fun x hx => ?_
    exact (Cursor.readWhile_keeps Step.read?_keeps hx).bind fun y hy => hy.2
  unfold Selector.read
  cases hparent : standard.token .parentOf c with
  | none => exact hsteps .descendant c h
  | some found => exact hsteps .child found.2 (h.token hparent)

/-! ## Lists -/

namespace SelectorList

/-- What is left over is not empty and does not start with white space. -/
theorem trailing_points {c : Cursor} (h : c.In input)
    (hend : (standard.skip .spaces c).atEnd = false) :
    (trailing standard c).PointsInto input := by
  obtain ⟨-, -, -, hspace⟩ := skip_spaces_iff.mp (rfl : standard.skip .spaces c = _)
  refine (h.skip .spaces).points rfl ⟨String.toList_ofList, ?_, hspace⟩
  simpa [Cursor.atEnd] using hend

/-- The error of a member that was left out points into the text. -/
def Member.Points (input : List Char) (member : Member) : Prop :=
  ∀ skipped ∈ member.skipped?, skipped.error.PointsInto input

theorem skipMember_points {c : Cursor} (h : c.In input) {e : SelectorError}
    (he : e.PointsInto input) :
    (skipMember c e).1.Points input ∧ (skipMember c e).2.In input := by
  constructor
  · rintro _ ⟨⟩
    exact he
  · exact h.take (.advance c (splitAtComma_append 0 none c.rest).symm)

theorem readMember_reports (policy : ListPolicy) {c : Cursor} (h : c.In input) :
    Reports input (fun result => result.1.Points input ∧ result.2.In input)
      (readMember standard policy c) := by
  have hread := Selector.read_keeps c h
  unfold readMember
  cases policy with
  | strict =>
    cases hselector : Selector.read standard c with
    | error e =>
      rw [hselector] at hread
      exact hread
    | ok found =>
      rw [hselector] at hread
      exact ⟨by simp [Member.Points, Member.skipped?], hread⟩
  | skipInvalid =>
    cases hselector : Selector.read standard c with
    | error e =>
      rw [hselector] at hread
      exact skipMember_points h hread
    | ok found =>
      rw [hselector] at hread
      simp only
      split
      · exact ⟨by simp [Member.Points, Member.skipped?], hread⟩
      · next hboundary =>
        rw [atBoundary, Bool.or_eq_true, not_or, Bool.not_eq_true, Bool.not_eq_true] at hboundary
        exact skipMember_points h (trailing_points hread hboundary.2)

end SelectorList

theorem Cursor.readSeparated_keeps {α : Type} {P : α → Prop} {separator : Cursor → Option Cursor}
    {item : Reader α} (hseparator : ∀ c d, c.In input → separator c = some d → d.In input)
    (hitem : ∀ c, c.In input →
      Reports input (fun result => P result.1 ∧ result.2.In input) (item c))
    {c : Cursor} (h : c.In input) :
    Reports input (fun result => (∀ a ∈ result.1, P a) ∧ result.2.In input)
      (c.readSeparated separator item) := by
  have hfirst := hitem c h
  fun_induction c.readSeparated separator item with
  | case1 c e hc =>
    rw [hc] at hfirst
    exact hfirst
  | case2 c a after hc hend =>
    rw [hc] at hfirst
    exact ⟨by simpa using hfirst.1, hfirst.2⟩
  | case3 c a after hc next hnext _ e hloop ih =>
    rw [hc] at hfirst
    have hplace := hseparator after next hfirst.2 hnext
    exact hloop ▸ ih hplace (hitem next hplace)
  | case4 c a after hc next hnext _ rest last hloop ih =>
    rw [hc] at hfirst
    have hplace := hseparator after next hfirst.2 hnext
    have hrest := ih hplace (hitem next hplace)
    rw [hloop] at hrest
    exact ⟨List.forall_mem_cons.mpr ⟨hfirst.1, hrest.1⟩, hrest.2⟩
  | case5 c a after hc =>
    rw [hc] at hfirst
    exact ⟨by simpa using hfirst.1, hfirst.2⟩

/-! ## Whole texts -/

namespace SelectorList

/-- The errors of a list: what is wrong with it, or with the members that it leaves out. -/
def reported : Except SelectorError SelectorList → List SelectorError
  | .error e => [e]
  | .ok list => list.skipped.map Skipped.error

/-- The errors of the members that a list leaves out point into the text. -/
def Points (input : List Char) (list : SelectorList) : Prop :=
  ∀ skipped ∈ list.skipped, skipped.error.PointsInto input

theorem ofMembers_reports {members : List Member} (h : ∀ member ∈ members, member.Points input) :
    Reports input (Points input) (ofMembers members) := by
  have hskipped : ∀ skipped ∈ members.filterMap Member.skipped?,
      skipped.error.PointsInto input := by
    intro skipped hmem
    obtain ⟨member, hmember, hsome⟩ := List.mem_filterMap.mp hmem
    exact h member hmember skipped hsome
  unfold ofMembers
  generalize members.filterMap Member.skipped? = others at hskipped ⊢
  split
  · exact (List.forall_mem_cons.mp hskipped).1
  · exact hskipped

theorem finish_reports {c : Cursor} (h : c.In input) :
    Reports input (fun _ => True) (finish standard c) := by
  unfold finish
  split
  · trivial
  · next hend => exact trailing_points h (Bool.eq_false_iff.mpr hend)

theorem readMembers_reports (policy : ListPolicy) {c : Cursor} (h : c.In input) :
    Reports input (fun result => (∀ member ∈ result.1, member.Points input) ∧ result.2.In input)
      (readMembers standard policy c) := by
  refine Cursor.readSeparated_keeps ?_ (fun c hc => readMember_reports policy hc) h
  intro c d hc hd
  obtain ⟨found, hfound, rfl⟩ := Option.map_eq_some_iff.mp hd
  exact hc.token hfound

/-- Without a limit, all errors of a list point into the text. -/
theorem ofText_reports (anchor : Anchor) (policy : ListPolicy) (text : String) :
    Reports text.toList (Points text.toList) (ofText standard ⟨anchor, policy, none⟩ text) := by
  have hread : Reports text.toList
      (fun result => Points text.toList result.1 ∧ result.2.In text.toList)
      (read standard policy (.start text)) := by
    rw [read]
    refine (readMembers_reports policy (.start text)).bind fun members h => ?_
    exact (ofMembers_reports h.1).bind fun list hlist => ⟨hlist, h.2⟩
  rw [ofText_eq_bind]
  refine hread.bind fun result hresult => ?_
  exact (finish_reports hresult.2).bind fun _ _ => hresult.1

theorem pointsInto_of_reported {x : Except SelectorError SelectorList}
    (h : Reports input (Points input) x) {e : SelectorError} (he : e ∈ reported x) :
    e.PointsInto input := by
  cases x with
  | error found =>
    rw [List.mem_singleton.mp he]
    exact h
  | ok list =>
    obtain ⟨skipped, hskipped, rfl⟩ := List.mem_map.mp he
    exact h skipped hskipped

end SelectorList

end Readers

/-- The number of characters before the end of a first part. -/
theorem Text.charsBefore_append (before rest : List Char) :
    charsBefore (before ++ rest) (byteLength before) = some before.length := by
  induction before with
  | nil => cases rest <;> rfl
  | cons c before ih =>
    obtain ⟨n, hn⟩ := Nat.exists_eq_add_of_lt c.utf8Size_pos
    have hlength : byteLength (c :: before) = n + byteLength before + 1 := by
      rw [byteLength]
      omega
    have hrest : n + byteLength before + 1 - c.utf8Size = byteLength before := by omega
    rw [hlength, List.cons_append, charsBefore, if_pos (by omega), hrest, ih]
    rfl

namespace SelectorError.PointsAfter

variable {e : SelectorError} {text : String} {before rest : List Char}

theorem position_le (h : e.PointsAfter text.toList before rest) :
    e.position ≤ byteLength text.toList := by
  rw [h.position, h.input, byteLength_append]
  exact Nat.le_add_right _ _

/-- The caret stands below the first character that the error names. -/
theorem column_eq (h : e.PointsAfter text.toList before rest) :
    CommandLine.column text e.position = before.length := by
  have hchars : charsBefore text.toList e.position = some before.length := by
    rw [h.position, h.input, charsBefore_append]
  rw [CommandLine.column, Nat.min_eq_left h.position_le, hchars]
  rfl

end SelectorError.PointsAfter

/-- Every error of a list, or of a member that it leaves out, has its position in the text. Unless
the text is longer than the limit, that position is the end of a first part of the text, the
caret stands after as many characters as that part has, and what follows is what the error
names. -/
theorem SelectorList.reported_pointsAfter (options : Options) (text : String) {e : SelectorError}
    (he : e ∈ reported (ofText .standard options text)) :
    e.position ≤ byteLength text.toList ∧
      ((∃ limit, options.maxLength = some limit ∧ limit < byteLength text.toList ∧
          e = .tooLong (byteLength text.toList) limit) ∨
        ∃ before rest, e.PointsAfter text.toList before rest ∧
          CommandLine.column text e.position = before.length) := by
  obtain ⟨anchor, policy, limit⟩ := options
  have hread (h : e ∈ reported (ofText .standard ⟨anchor, policy, none⟩ text)) :
      ∃ before rest, e.PointsAfter text.toList before rest :=
    pointsInto_of_reported (ofText_reports anchor policy text) h
  cases limit with
  | none =>
    obtain ⟨before, rest, h⟩ := hread he
    exact ⟨h.position_le, .inr ⟨before, rest, h, h.column_eq⟩⟩
  | some limit =>
    by_cases hlimit : limit < byteLength text.toList
    · rw [ofText_of_lt hlimit] at he
      obtain rfl := List.mem_singleton.mp he
      exact ⟨hlimit.le, .inl ⟨limit, rfl, hlimit, rfl⟩⟩
    · rw [ofText_of_not_lt hlimit] at he
      obtain ⟨before, rest, h⟩ := hread he
      exact ⟨h.position_le, .inr ⟨before, rest, h, h.column_eq⟩⟩

/-- A member that is left out for an operator that is not supported: the caret stands after 11
characters, which are 13 bytes. -/
theorem SelectorList.reported_pointsAfter_operator :
    SelectorError.unsupportedOperator 13 "!=" ∈
        reported (ofText .standard ⟨.context, .skipInvalid, none⟩ "p, éé x, [k!=v]") ∧
      ∃ before rest, (SelectorError.unsupportedOperator 13 "!=").PointsAfter
        "p, éé x, [k!=v]".toList before rest ∧ before.length = 11 := by
  have herrors : reported (ofText .standard ⟨.context, .skipInvalid, none⟩ "p, éé x, [k!=v]") =
      [.unexpected 3 .compound, .unsupportedOperator 13 "!="] := by cbv
  have hmem : SelectorError.unsupportedOperator 13 "!=" ∈
      reported (ofText .standard ⟨.context, .skipInvalid, none⟩ "p, éé x, [k!=v]") := by
    simp [herrors]
  refine ⟨hmem, ?_⟩
  obtain ⟨-, ⟨_, hlimit, -⟩ | ⟨before, rest, h, hcolumn⟩⟩ := reported_pointsAfter _ _ hmem
  · cases hlimit
  · exact ⟨before, rest, h, hcolumn.symm.trans (by cbv)⟩

end SelectorPath
