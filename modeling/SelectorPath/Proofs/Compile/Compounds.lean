import SelectorPath.Compile.Selector
import SelectorPath.Proofs.Compile.Attributes
import SelectorPath.Proofs.Compile.Positions

/-!
What the terms of qualifiers test (`Qualifier.terms_testAll`), and which elements the brackets
of a compound keep (`Compound.keep?_children`, `Compound.keep?_siblings`).

In a negation the siblings of the same type are counted by the name that holds around it. That
is the name of the element only if the terms around the negation hold, so that the terms of a
qualifier always test something, but what the qualifier asks only under that name.
-/

namespace SelectorPath

open Text XPath Syntax

section Terms

variable {doc : Document} {context : Context} {a : Address}

/-! ## Scopes -/

/-- The element has the name that holds in a scope. -/
def Scope.Holds (doc : Document) (a : Address) (scope : Scope) : Prop :=
  ∀ name, scope.element = some name → doc.name? a = some name

/-- A scope shows the positions of an element; those among siblings of the same type are
relied on only under the name that holds. -/
structure Scope.Fits (doc : Document) (context : Context) (a : Address) (scope : Scope) :
    Prop where
  child : scope.child.Shows doc context (doc.rank .children a) (doc.rankFromEnd .children a)
  sameType : ∃ rank fromEnd, scope.sameType.Shows doc context rank fromEnd ∧
    (scope.element.isSome → scope.Holds doc a →
      rank = doc.rank .sameType a ∧ fromEnd = doc.rankFromEnd .sameType a)

theorem Scope.counted_sameType (hnode : context.node = .element a) (element : Option String) :
    ∃ rank fromEnd, (Position.counted (typeTest element)).Shows doc context rank fromEnd ∧
      (element.isSome → (∀ name, element = some name → doc.name? a = some name) →
        rank = doc.rank .sameType a ∧ fromEnd = doc.rankFromEnd .sameType a) := by
  cases element with
  | none => exact ⟨_, _, Position.counted_shows hnode .any, by simp⟩
  | some name =>
    by_cases hname : doc.name? a = some name
    · exact ⟨_, _, Position.counted_named_shows hnode hname, fun _ _ => ⟨rfl, rfl⟩⟩
    · exact ⟨_, _, Position.counted_shows hnode (.named name),
        fun _ hholds => absurd (hholds name rfl) hname⟩

theorem Scope.counted_fits (hnode : context.node = .element a) (element : Option String) :
    (Scope.counted element).Fits doc context a :=
  ⟨Position.counted_any_shows hnode, counted_sameType hnode element⟩

/-- The position of an element and the one from the end, as a scope refers to them. -/
theorem Scope.Fits.position {scope : Scope} (h : scope.Fits doc context a) {among : Among}
    (hsome : among = .sameType → scope.element.isSome) :
    ∃ rank fromEnd, (scope.position among).Shows doc context rank fromEnd ∧
      (scope.Holds doc a → rank = doc.rank among a ∧ fromEnd = doc.rankFromEnd among a) := by
  cases among with
  | children => exact ⟨_, _, h.child, fun _ => ⟨rfl, rfl⟩⟩
  | sameType =>
    obtain ⟨rank, fromEnd, hshows, hrank⟩ := h.sameType
    exact ⟨rank, fromEnd, hshows, hrank (hsome rfl)⟩

/-! ## Qualifiers -/

theorem ElementTest.terms_testAll (hnode : context.node = .element a)
    (element : Option ElementTest) :
    TestAll doc context (ElementTest.terms element) (ElementTest.Matches doc a element) := by
  unfold ElementTest.terms ElementTest.Matches
  cases ElementTest.name? element with
  | none => simp [TestAll]
  | some name =>
    have haxis : doc.axis? .self context.node = some [.element a] := by
      rw [hnode]
      rfl
    have heval : (Expr.nodes .self (.named name)).tree.eval? doc context =
        some (.nodes (([a].filter ((NodeTest.named name).accepts doc)).map .element)) := by
      have haccepts : doc.passes .self (.named name) ∘ Node.element =
          (NodeTest.named name).accepts doc :=
        passes_element (by decide) (.named name)
      rw [Expr.tree, Axis.toName, eval?_nodes haxis (List.nodup_singleton _), ← haccepts,
        ← List.filter_map]
      rfl
    refine .single ⟨_, heval, rfl, ?_⟩
    by_cases hname : doc.name? a = some name <;>
      simp [Value.toBool, NodeTest.accepts, hname]

/-- The name that holds is that of the element test, or else the one around it. -/
theorem ElementTest.Matches.holds_or {element : Option ElementTest} {enclosing : Option String}
    (h : ElementTest.Matches doc a element)
    (henclosing : ∀ name, enclosing = some name → doc.name? a = some name) :
    ∀ name, (ElementTest.name? element).or enclosing = some name → doc.name? a = some name := by
  intro name hname
  rcases Option.or_eq_some_iff.mp hname with hown | ⟨-, haround⟩
  · exact h name hown
  · exact henclosing name haround

theorem negateTerms_tests {terms : List Expr} {P : Prop} (h : TestAll doc context terms P) :
    Tests doc context (negateTerms terms).tree (¬P) := by
  cases terms with
  | nil => exact constFalse_tests.congr (iff_of_false id (not_not.mpr h))
  | cons e rest => exact (h.chain (List.cons_ne_nil e rest)).not

theorem ne_empty_of_headed {name : String} (h : Headed isNamePart isNamePart name.toList) :
    name ≠ "" ∧ ∀ c ∈ name.toList, isSpace c = false := by
  obtain ⟨c, rest, hname, hc, hrest⟩ := h
  constructor
  · rintro rfl
    simp at hname
  · rw [hname]
    exact List.forall_mem_cons.mpr
      ⟨isSpace_of_isNamePart hc, fun d hd => isSpace_of_isNamePart (hrest d hd)⟩

mutual

/-- The terms of a qualifier test something, which is what the qualifier asks if the element
has the name that holds. -/
theorem Qualifier.terms_testAll (hnode : context.node = .element a) (ha : doc.Has a)
    (q : Qualifier) {scope : Scope} (hfits : scope.Fits doc context a)
    (hscoped : q.Scoped scope.element)
    (hnamed : q.Each ElementTest.Named Qualifier.Named) :
    ∃ P, TestAll doc context (q.terms scope) P ∧
      (scope.Holds doc a → (P ↔ q.Matches hasPlainWord doc a)) := by
  match q with
  | .className name =>
    obtain ⟨hne, hspace⟩ := ne_empty_of_headed hnamed
    exact ⟨_, .single (hasWord_tests hnode ha "class" hne hspace), fun _ => Iff.rfl⟩
  | .id name =>
    obtain ⟨v, hv, hstands⟩ := eval?_attributeNamed hnode ha "id"
    exact ⟨_, .single (same_tests hv hstands name), fun _ => Iff.rfl⟩
  | .attributeTest test =>
    exact ⟨_, .single (AttributeTest.term_tests hnode ha test), fun _ => Iff.rfl⟩
  | .place p among =>
    have hsome : among = .sameType → scope.element.isSome := by
      rintro rfl
      exact hscoped rfl
    obtain ⟨rank, fromEnd, hshows, hrank⟩ := hfits.position hsome
    refine ⟨_, hshows.place p, fun hholds => ?_⟩
    obtain ⟨rfl, rfl⟩ := hrank hholds
    rfl
  | .nth formula among =>
    have hsome : among = .sameType → scope.element.isSome := by
      rintro rfl
      exact hscoped rfl
    obtain ⟨rank, fromEnd, hshows, hrank⟩ := hfits.position hsome
    refine ⟨_, formula.terms_testAll hshows.index hshows.pos, fun hholds => ?_⟩
    obtain ⟨rfl, rfl⟩ := hrank hholds
    rfl
  | .negation element qualifiers =>
    obtain ⟨P, hP, hiff⟩ := Qualifier.allTerms_testAll hnode ha qualifiers
      (Scope.counted_fits hnode ((ElementTest.name? element).or scope.element)) hscoped hnamed.2
    exact ⟨_, .single (negateTerms_tests ((ElementTest.terms_testAll hnode element).append hP)),
      fun hholds => not_congr (and_congr_right fun helement => hiff (helement.holds_or hholds))⟩

theorem Qualifier.allTerms_testAll (hnode : context.node = .element a) (ha : doc.Has a)
    (qualifiers : List Qualifier) {scope : Scope} (hfits : scope.Fits doc context a)
    (hscoped : Qualifier.AllScoped scope.element qualifiers)
    (hnamed : Qualifier.AllEach ElementTest.Named Qualifier.Named qualifiers) :
    ∃ P, TestAll doc context (Qualifier.allTerms scope qualifiers) P ∧
      (scope.Holds doc a → (P ↔ Qualifier.AllMatch hasPlainWord doc a qualifiers)) := by
  match qualifiers with
  | [] => exact ⟨True, trivial, fun _ => Iff.rfl⟩
  | q :: rest =>
    obtain ⟨P, hP, hPiff⟩ := Qualifier.terms_testAll hnode ha q hfits hscoped.1 hnamed.1
    obtain ⟨Q, hQ, hQiff⟩ := Qualifier.allTerms_testAll hnode ha rest hfits hscoped.2 hnamed.2
    exact ⟨_, hP.append hQ, fun hholds => and_congr (hPiff hholds) (hQiff hholds)⟩

end

end Terms

/-! ## Brackets -/

section Brackets

open scoped Classical

variable {doc : Document} {context : Context} {a : Address}

theorem Qualifier.allMatch_iff {hasWord : WordTest} {qualifiers : List Qualifier} :
    Qualifier.AllMatch hasWord doc a qualifiers ↔
      ∀ q ∈ qualifiers, q.Matches hasWord doc a := by
  induction qualifiers with
  | nil => simp [Qualifier.AllMatch]
  | cons q rest ih => simp [Qualifier.AllMatch, ih]

/-- One bracket for a whole compound. -/
theorem Compound.terms_testAll (hnode : context.node = .element a) (ha : doc.Has a)
    {compound : Compound} (hnamed : compound.Named) (hscoped : compound.Scoped none)
    {scope : Scope} (hfits : scope.Fits doc context a)
    (helement : scope.element = ElementTest.name? compound.element) :
    TestAll doc context
      (ElementTest.terms compound.element ++ Qualifier.allTerms scope compound.qualifiers)
      (compound.Matches hasPlainWord doc a) := by
  rw [Compound.Scoped, Option.or_none, ← helement] at hscoped
  obtain ⟨P, hP, hiff⟩ := Qualifier.allTerms_testAll hnode ha _ hfits hscoped hnamed.qualifiers
  refine ((ElementTest.terms_testAll hnode compound.element).append hP).congr ?_
  refine and_congr_right fun hmatches => hiff fun name hname => hmatches name ?_
  rw [← helement, hname]

/-- Where siblings that are kept stand. -/
theorem Document.split_children {keep : Address → Bool} {c : Address} {l r : List Address}
    (h : (doc.children c).filter keep = l ++ a :: r) :
    doc.Has a ∧ l = (before a).filter keep ∧ r = (doc.after a).filter keep := by
  have hmem : a ∈ (doc.children c).filter keep := by simp [h]
  obtain ⟨hchild, hkeep⟩ := List.mem_filter.mp hmem
  obtain ⟨i, rfl, hhas⟩ := mem_children.mp hchild
  have hnodup : (l ++ (i :: c) :: r).Nodup := h ▸ (children_nodup c).filter keep
  have hnotMem := (List.nodup_cons.mp (List.nodup_middle.mp hnodup)).1
  rw [List.mem_append, not_or] at hnotMem
  rw [children_eq hhas, List.filter_append, List.filter_cons_of_pos hkeep] at h
  obtain ⟨hl, -, hr⟩ := (List.append_cons_inj_of_notMem hnotMem.1 hnotMem.2).mp h.symm
  exact ⟨hhas, hl, hr⟩

/-- The number of a node among the children that count in a position is that position. -/
theorem Document.exact_shows {among : Among} {c : Address} {l r : List Address}
    (h : (doc.children c).filter (doc.alike among a) = l ++ a :: r) :
    Position.exact.Shows doc
      ⟨.element a, l.length + 1, ((doc.children c).filter (doc.alike among a)).length⟩
      (doc.rank among a) (doc.rankFromEnd among a) := by
  obtain ⟨-, hl, hr⟩ := split_children h
  refine Position.exact_shows (Nat.succ_pos _) (by rw [rank, hl]) ?_
  simp only [h, List.length_append, List.length_cons, rank, rankFromEnd, hl, hr]
  omega

/-- Siblings behind an element. -/
theorem Compound.keep?_siblings {compound : Compound} (hnamed : compound.Named)
    (hscoped : compound.Scoped none) {addresses : List Address}
    (hhas : ∀ a ∈ addresses, doc.Has a) :
    Tree.keep? doc (addresses.map .element) (bracketTrees (compound.layout false)) =
      some ((addresses.filter fun a => decide (compound.Matches hasPlainWord doc a)).map
        .element) := by
  refine keep?_bracket (fun l a r hl => ?_) []
  exact Compound.terms_testAll rfl (hhas a (by simp [hl])) hnamed hscoped
    (Scope.counted_fits rfl _) rfl

/-- Qualifiers may be tested in two brackets, one after the other. -/
theorem Qualifier.allMatch_filter {hasWord : WordTest} (keep : Qualifier → Bool)
    (qualifiers : List Qualifier) :
    Qualifier.AllMatch hasWord doc a (qualifiers.filter keep) ∧
        Qualifier.AllMatch hasWord doc a (qualifiers.filter fun q => !keep q) ↔
      Qualifier.AllMatch hasWord doc a qualifiers := by
  simp only [Qualifier.allMatch_iff, List.mem_filter, Bool.not_eq_true']
  constructor
  · rintro ⟨hkeep, hothers⟩ q hq
    cases hq' : keep q with
    | true => exact hkeep q ⟨hq, hq'⟩
    | false => exact hothers q ⟨hq, hq'⟩
  · exact fun h => ⟨fun q hq => h q hq.1, fun q hq => h q hq.1⟩

/-- Children, if no qualifier is about siblings of the same name. -/
theorem Compound.keep?_children_plain {compound : Compound} (hnamed : compound.Named)
    (hscoped : compound.Scoped none)
    (hplain : compound.qualifiers.any Qualifier.isSameType = false) (c : Address) :
    Tree.keep? doc ((doc.children c).map .element) (bracketTrees (compound.layout true)) =
      some (((doc.children c).filter fun a => decide (compound.Matches hasPlainWord doc a)).map
        .element) := by
  have hlayout : compound.layout true = [ElementTest.terms compound.element ++
      Qualifier.allTerms ⟨.exact, .counted (Scope.typeTest (ElementTest.name? compound.element)),
        ElementTest.name? compound.element⟩ compound.qualifiers] := by
    simp [layout, hplain]
  have hall (a : Address) : (doc.children c).filter (doc.alike .children a) = doc.children c :=
    List.filter_eq_self.mpr fun _ _ => rfl
  rw [hlayout]
  refine keep?_bracket (fun l a r hl => ?_) []
  have hsplit := (hall a).trans hl
  have hexact := Document.exact_shows hsplit
  rw [hall] at hexact
  exact Compound.terms_testAll rfl (Document.split_children hsplit).1 hnamed hscoped
    ⟨hexact, Scope.counted_sameType rfl _⟩ rfl

/-- Among children with the name of an element, those that count are all of them. -/
theorem ElementTest.matches_eq_alike {element : Option ElementTest} {name : String}
    (hname : ElementTest.name? element = some name) (h : ElementTest.Matches doc a element) :
    (fun b => decide (ElementTest.Matches doc b element)) = doc.alike .sameType a := by
  funext b
  rw [Document.alike, h name hname, Bool.eq_iff_iff, decide_eq_true_iff, beq_iff_eq]
  simp [ElementTest.Matches, hname]

/-- A bracket for some of the qualifiers of a compound, at elements with its name. -/
theorem Compound.allTerms_testAll (hnode : context.node = .element a) (ha : doc.Has a)
    {compound : Compound} (hnamed : compound.Named) (hscoped : compound.Scoped none)
    (hmatches : ElementTest.Matches doc a compound.element) {scope : Scope}
    (hfits : scope.Fits doc context a)
    (helement : scope.element = ElementTest.name? compound.element) (keep : Qualifier → Bool) :
    TestAll doc context (Qualifier.allTerms scope (compound.qualifiers.filter keep))
      (Qualifier.AllMatch hasPlainWord doc a (compound.qualifiers.filter keep)) := by
  rw [Compound.Scoped, Option.or_none, ← helement, Qualifier.allScoped_iff] at hscoped
  have heach := Qualifier.allEach_iff.mp hnamed.qualifiers
  obtain ⟨P, hP, hiff⟩ := Qualifier.allTerms_testAll hnode ha _ hfits
    (Qualifier.allScoped_iff.mpr fun q hq => hscoped q (List.mem_filter.mp hq).1)
    (Qualifier.allEach_iff.mpr fun q hq => heach q (List.mem_filter.mp hq).1)
  refine hP.congr (hiff fun name hname => hmatches name ?_)
  rw [← helement, hname]

/-- The bracket after the one for the name, in which the number of a node is its position among
the siblings of the same name. -/
theorem Compound.sameType_testAll {compound : Compound} (hnamed : compound.Named)
    (hscoped : compound.Scoped none) {name : String}
    (hname : ElementTest.name? compound.element = some name) {c : Address} {l r : List Address}
    (h : ((doc.children c).filter fun b => decide (ElementTest.Matches doc b compound.element)) =
      l ++ a :: r) :
    TestAll doc ⟨.element a, l.length + 1,
        ((doc.children c).filter fun b =>
          decide (ElementTest.Matches doc b compound.element)).length⟩
      (Qualifier.allTerms ⟨.counted .any, .exact, ElementTest.name? compound.element⟩
        (compound.qualifiers.filter Qualifier.isSameType))
      (Qualifier.AllMatch hasPlainWord doc a
        (compound.qualifiers.filter Qualifier.isSameType)) := by
  have hmem : a ∈ (doc.children c).filter fun b =>
      decide (ElementTest.Matches doc b compound.element) := by
    simp [h]
  have hmatches := of_decide_eq_true (List.mem_filter.mp hmem).2
  rw [ElementTest.matches_eq_alike hname hmatches] at h ⊢
  exact allTerms_testAll rfl (Document.split_children h).1 hnamed hscoped hmatches
    ⟨Position.counted_any_shows rfl, _, _, Document.exact_shows h, fun _ _ => ⟨rfl, rfl⟩⟩ rfl
    Qualifier.isSameType

/-- Children, if there are qualifiers about siblings of the same name. -/
theorem Compound.keep?_children_sameType {compound : Compound} (hnamed : compound.Named)
    (hscoped : compound.Scoped none)
    (hsameType : compound.qualifiers.any Qualifier.isSameType = true) (c : Address) :
    Tree.keep? doc ((doc.children c).map .element) (bracketTrees (compound.layout true)) =
      some (((doc.children c).filter fun a => decide (compound.Matches hasPlainWord doc a)).map
        .element) := by
  obtain ⟨q, hq, hqSameType⟩ := List.any_eq_true.mp hsameType
  obtain ⟨name, hname⟩ : ∃ name, ElementTest.name? compound.element = some name := by
    have hq' := hscoped
    rw [Compound.Scoped, Option.or_none, Qualifier.allScoped_iff] at hq'
    exact Option.isSome_iff_exists.mp
      ((Qualifier.scoped_of_isSameType hqSameType).mp (hq' q hq))
  have hlayout : compound.layout true = [ElementTest.terms compound.element,
      Qualifier.allTerms ⟨.counted .any, .exact, ElementTest.name? compound.element⟩
        (compound.qualifiers.filter Qualifier.isSameType),
      Qualifier.allTerms (.counted (ElementTest.name? compound.element))
        (compound.qualifiers.filter fun q => !q.isSameType)] := by
    simp [layout, hsameType]
  rw [hlayout, keep?_bracket fun l a r _ => ElementTest.terms_testAll rfl compound.element,
    keep?_bracket fun l a r hl => sameType_testAll hnamed hscoped hname hl,
    keep?_bracket (P := fun a => Qualifier.AllMatch hasPlainWord doc a
      (compound.qualifiers.filter fun q => !q.isSameType)) fun l a r hl => ?_]
  · rw [List.filter_filter, List.filter_filter]
    refine congrArg (fun found => some (found.map Node.element)) (List.filter_congr fun a _ => ?_)
    rw [← Bool.decide_and, ← Bool.decide_and, decide_eq_decide, Compound.Matches,
      ← Qualifier.allMatch_filter Qualifier.isSameType compound.qualifiers]
    tauto
  · have hmem := (List.mem_filter.mp (hl ▸ List.mem_append_right l List.mem_cons_self)).1
    obtain ⟨hchild, hmatches⟩ := List.mem_filter.mp hmem
    obtain ⟨-, -, hhas⟩ := Document.mem_children.mp hchild
    exact allTerms_testAll rfl hhas hnamed hscoped (of_decide_eq_true hmatches)
      (Scope.counted_fits rfl _) rfl _

/-- The brackets of a compound keep the children that match it. -/
theorem Compound.keep?_children {compound : Compound} (hnamed : compound.Named)
    (hscoped : compound.Scoped none) (c : Address) :
    Tree.keep? doc ((doc.children c).map .element) (bracketTrees (compound.layout true)) =
      some (((doc.children c).filter fun a => decide (compound.Matches hasPlainWord doc a)).map
        .element) := by
  cases hsameType : compound.qualifiers.any Qualifier.isSameType with
  | false => exact keep?_children_plain hnamed hscoped hsameType c
  | true => exact keep?_children_sameType hnamed hscoped hsameType c

end Brackets

end SelectorPath
