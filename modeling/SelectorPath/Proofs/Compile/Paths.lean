import SelectorPath.Proofs.Compile.Compounds

/-!
Where the paths of selectors lead: from an element to the elements that the selector selects
from there (`Selector.WellFormed.path_finds`), and from the root to the ends of chains that start below
the document element (`Selector.path_finds_document`).
-/

namespace SelectorPath

open Text XPath Syntax

section Steps

open scoped Classical

variable {doc : Document}

/-! ## Steps -/

/-- A step along an axis of elements, whatever their names. -/
theorem select?_any {axis : AxisName} {node : Node} {addresses : List Address}
    (haxis : doc.axis? axis node = some (addresses.map .element)) (hne : axis ≠ .attribute)
    (predicates : List Tree) :
    (TreeStep.mk axis .any predicates).select? doc node =
      Tree.keep? doc (addresses.map .element) predicates := by
  have hpasses : doc.passes axis .any ∘ Node.element = fun _ => true := passes_element hne .any
  rw [TreeStep.select?, haxis]
  simp [List.filter_map, hpasses]

/-- The step to the children that match a compound. -/
theorem child_leads {compound : Compound} (hnamed : compound.Named)
    (hscoped : compound.Scoped none) :
    XPath.Leads doc [(XPath.Step.mk .child .any (compound.brackets true)).tree]
      (Step.Leads hasPlainWord doc ⟨.child, compound⟩) := by
  refine .single fun a _ => ?_
  have haxis : doc.axis? .child (.element a) = some ((doc.children a).map .element) := rfl
  refine ⟨_, (select?_any haxis (by decide) _).trans
    (Compound.keep?_children hnamed hscoped a), fun b => ?_⟩
  rw [List.mem_filter, decide_eq_true_iff, Document.mem_children]
  simp only [Step.Leads, Combinator.Relates]
  tauto

/-- The step to an element and all elements in it. -/
theorem descendantOrSelf_leads :
    XPath.Leads doc [(XPath.Step.mk .descendantOrSelf .any []).tree]
      fun a b => a <:+ b ∧ doc.Has b := by
  refine .single fun a _ => ?_
  have haxis : doc.axis? .descendantOrSelf (.element a) =
      some ((doc.addresses.filter fun b => a.isSuffixOf b).map .element) := rfl
  refine ⟨_, select?_any haxis (by decide) [], fun b => ?_⟩
  rw [List.mem_filter, Document.mem_addresses, List.isSuffixOf_iff_suffix, and_comm]

/-- The elements in an element are the children of itself and of the elements in it. -/
theorem properDescendant_iff {a b : Address} (hb : doc.Has b) :
    (a <:+ b ∧ a ≠ b) ↔ ∃ c, (a <:+ c ∧ doc.Has c) ∧ ∃ i, b = i :: c := by
  constructor
  · rintro ⟨hsuffix, hne⟩
    cases b with
    | nil => exact absurd (List.suffix_nil.mp hsuffix) hne
    | cons i c =>
      rcases List.suffix_cons_iff.mp hsuffix with heq | hc
      · exact absurd heq hne
      · exact ⟨c, ⟨hc, hb.parent⟩, i, rfl⟩
  · rintro ⟨c, ⟨hc, -⟩, i, rfl⟩
    refine ⟨hc.trans (List.suffix_cons i c), ?_⟩
    rintro rfl
    have := hc.length_le
    simp at this

theorem Document.mem_after {a b : Address} :
    b ∈ doc.after a ↔ doc.Has b ∧ Combinator.laterSibling.Relates a b := by
  cases a with
  | nil => simp [after, Combinator.Relates]
  | cons i c =>
    rw [after, List.mem_map]
    constructor
    · rintro ⟨j, hj, rfl⟩
      have hbounds := List.mem_range'_1.mp hj
      exact ⟨has_cons.mpr (by omega), i, j, c, rfl, rfl, by omega⟩
    · rintro ⟨hhas, i', j, c', heq, rfl, hlt⟩
      obtain ⟨rfl, rfl⟩ := List.cons.inj heq
      have hj := has_cons.mp hhas
      exact ⟨j, List.mem_range'_1.mpr (by omega), rfl⟩

/-- The sibling at a position behind an element. -/
theorem Document.after_split {a b : Address} {l r : List Address}
    (h : doc.after a = l ++ b :: r) : ∃ i c, a = i :: c ∧ b = (i + 1 + l.length) :: c := by
  cases a with
  | nil => simp [after] at h
  | cons i c =>
    have hget : (doc.after (i :: c))[l.length]? = some b := by simp [h]
    rw [after, List.getElem?_map, Option.map_eq_some_iff] at hget
    obtain ⟨j, hj, rfl⟩ := hget
    obtain ⟨-, rfl⟩ := List.getElem?_eq_some_iff.mp hj
    exact ⟨i, c, rfl, by simp⟩

/-- The step to the siblings behind an element that match a compound. -/
theorem laterSibling_leads {compound : Compound} (hnamed : compound.Named)
    (hscoped : compound.Scoped none) :
    XPath.Leads doc [(XPath.Step.mk .followingSibling .any (compound.brackets false)).tree]
      (Step.Leads hasPlainWord doc ⟨.laterSibling, compound⟩) := by
  refine .single fun a _ => ?_
  have haxis : doc.axis? .followingSibling (.element a) = some ((doc.after a).map .element) := rfl
  refine ⟨_, (select?_any haxis (by decide) _).trans
    (Compound.keep?_siblings hnamed hscoped fun b hb => (Document.mem_after.mp hb).1),
    fun b => ?_⟩
  rw [List.mem_filter, decide_eq_true_iff, Document.mem_after, and_assoc]
  rfl

/-- The first of the siblings behind an element is the next one. -/
theorem nextSibling_testAll {a b : Address} {l r : List Address}
    (h : doc.after a = l ++ b :: r) :
    TestAll doc ⟨.element b, l.length + 1, (doc.after a).length⟩ [Position.exact.first]
      (Combinator.nextSibling.Relates a b) := by
  have hshows : Position.exact.Shows doc ⟨.element b, l.length + 1, (doc.after a).length⟩
      (l.length + 1) (r.length + 1) := by
    refine Position.exact_shows (Nat.succ_pos _) rfl ?_
    simp only [h, List.length_append, List.length_cons]
    omega
  obtain ⟨i, c, rfl, rfl⟩ := Document.after_split h
  refine .single (hshows.first.congr ?_)
  simp only [Combinator.Relates, List.cons.injEq]
  constructor
  · exact fun hl => ⟨i, c, ⟨rfl, rfl⟩, by omega, rfl⟩
  · rintro ⟨i', c', ⟨rfl, rfl⟩, hi, -⟩
    omega

/-- The step to the next sibling, if it matches a compound. -/
theorem nextSibling_leads {compound : Compound} (hnamed : compound.Named)
    (hscoped : compound.Scoped none) :
    XPath.Leads doc [(XPath.Step.mk .followingSibling .any
        ([Position.exact.first] :: compound.brackets false)).tree]
      (Step.Leads hasPlainWord doc ⟨.nextSibling, compound⟩) := by
  refine .single fun a _ => ?_
  have haxis : doc.axis? .followingSibling (.element a) = some ((doc.after a).map .element) := rfl
  have hfirst : ∀ l b r, doc.after a = l ++ b :: r →
      TestAll doc ⟨.element b, l.length + 1, (doc.after a).length⟩ [Position.exact.first]
        (Combinator.nextSibling.Relates a b) :=
    fun _ _ _ => nextSibling_testAll
  have hkeep := keep?_bracket hfirst (compound.layout false)
  rw [Compound.keep?_siblings hnamed hscoped fun b hb =>
    (Document.mem_after.mp (List.mem_filter.mp hb).1).1] at hkeep
  refine ⟨_, (select?_any haxis (by decide) _).trans hkeep, fun b => ?_⟩
  have hlater : Combinator.nextSibling.Relates a b → Combinator.laterSibling.Relates a b := by
    rintro ⟨i, c, rfl, rfl⟩
    exact ⟨i, i + 1, c, rfl, rfl, by omega⟩
  simp only [List.mem_filter, decide_eq_true_iff, Document.mem_after, Step.Leads]
  tauto

/-- The location steps of a step lead where the step leads. -/
theorem Step.path_leads {step : Step} (hnamed : step.compound.Named)
    (hscoped : step.compound.Scoped none) :
    XPath.Leads doc (step.path.map XPath.Step.tree) (step.Leads hasPlainWord doc) := by
  obtain ⟨combinator, compound⟩ := step
  cases combinator with
  | descendant =>
    refine (descendantOrSelf_leads.append (child_leads hnamed hscoped)
      fun a b h => h.2).congr fun a b => ?_
    simp only [Step.Leads, Combinator.Relates]
    constructor
    · rintro ⟨c, hc, hb, hchild, hmatches⟩
      exact ⟨hb, (properDescendant_iff hb).mpr ⟨c, hc, hchild⟩, hmatches⟩
    · rintro ⟨hb, hproper, hmatches⟩
      obtain ⟨c, hc, hchild⟩ := (properDescendant_iff hb).mp hproper
      exact ⟨c, hc, hb, hchild, hmatches⟩
  | child => exact child_leads hnamed hscoped
  | nextSibling => exact nextSibling_leads hnamed hscoped
  | laterSibling => exact laterSibling_leads hnamed hscoped

/-- Steps lead where their chain leads. -/
theorem Step.chain_leads {steps : List Step} (hnamed : ∀ step ∈ steps, step.compound.Named)
    (hscoped : ∀ step ∈ steps, step.compound.Scoped none) :
    XPath.Leads doc ((steps.flatMap Step.path).map XPath.Step.tree)
      (Step.Chain hasPlainWord doc steps) := by
  induction steps with
  | nil => exact .nil
  | cons step rest ih =>
    obtain ⟨hnamedStep, hnamedRest⟩ := List.forall_mem_cons.mp hnamed
    obtain ⟨hscopedStep, hscopedRest⟩ := List.forall_mem_cons.mp hscoped
    rw [List.flatMap_cons, List.map_append]
    exact (Step.path_leads hnamedStep hscopedStep).append (ih hnamedRest hscopedRest)
      fun a b h => h.1

end Steps

/-! ## Paths -/

section Paths

variable {doc : Document} {context : Context}

/-- The path of a selector finds what the selector selects. -/
theorem Selector.WellFormed.path_finds {selector : Selector} (h : selector.WellFormed) {c : Address}
    (hnode : context.node = .element c) (hc : doc.Has c) :
    Finds doc context (selector.path .context).tree (selector.Selects hasPlainWord doc c) := by
  have hleads : XPath.Leads doc ((selector.steps.flatMap Step.path).map XPath.Step.tree)
      (Step.Chain hasPlainWord doc selector.steps) :=
    Step.chain_leads h.named fun step hstep => (h.bounded step hstep).scope
  have hstart (steps : List TreeStep) :
      TreeStep.follow? doc [if false then .root else context.node] ([] ++ steps) =
        TreeStep.follow? doc ([c].map .element) steps := by
    simp [hnode]
  refine (hleads.finds (hstart _) (by simpa using hc)).congr fun b => ?_
  simp [Selector.Selects]

/-- The elements in the root are all elements. -/
theorem root_select? :
    (XPath.Step.mk .descendantOrSelf .any []).tree.select? doc .root =
      some (doc.addresses.map .element) := by
  have hpasses : doc.passes .descendantOrSelf .any ∘ Node.element = fun _ => true :=
    passes_element (by decide) .any
  have hroot : doc.passes .descendantOrSelf .any .root = false := rfl
  simp [XPath.Step.tree, Axis.toName, NodeTest.toTest, TreeStep.select?, Document.axis?,
    Tree.keep?, List.filter_map, hpasses, hroot]

/-- From the root, the first step leads to all elements but the document element, which is no
child of an element. -/
theorem Selector.path_finds_document {first : Step} {rest : List Step}
    (h : Selector.WellFormed ⟨first :: rest⟩) (hfirst : first.combinator = .descendant) :
    Finds doc context (Selector.path .document ⟨first :: rest⟩).tree fun b =>
      ∃ a, a ≠ [] ∧ doc.Has a ∧ first.compound.Matches hasPlainWord doc a ∧
        Step.Chain hasPlainWord doc rest a b := by
  obtain ⟨combinator, compound⟩ := first
  obtain rfl : combinator = .descendant := hfirst
  obtain ⟨hnamed, hnamedRest⟩ := List.forall_mem_cons.mp h.named
  obtain ⟨hbounded, hboundedRest⟩ := List.forall_mem_cons.mp h.bounded
  have hchild : XPath.Leads doc _ _ := child_leads hnamed hbounded.scope
  have hleads := hchild.append
    (Step.chain_leads hnamedRest fun step hstep => (hboundedRest step hstep).scope)
    fun a b h => h.1
  have hstart (steps : List TreeStep) :
      TreeStep.follow? doc [if true then .root else context.node]
          ([(XPath.Step.mk .descendantOrSelf .any []).tree] ++ steps) =
        TreeStep.follow? doc (doc.addresses.dedup.map .element) steps := by
    rw [List.singleton_append, TreeStep.follow?]
    simp [root_select?, List.dedup_map_of_injective element_injective]
  refine (hleads.finds (hstart _) fun a ha =>
    Document.mem_addresses.mp (List.mem_dedup.mp ha)).congr fun b => ?_
  simp only [List.mem_dedup, Document.mem_addresses, Step.Leads, Combinator.Relates]
  constructor
  · rintro ⟨c, -, a, ⟨ha, ⟨i, rfl⟩, hmatches⟩, hchain⟩
    exact ⟨i :: c, List.cons_ne_nil i c, ha, hmatches, hchain⟩
  · rintro ⟨a, hne, ha, hmatches, hchain⟩
    obtain ⟨i, c, rfl⟩ := List.exists_cons_of_ne_nil hne
    exact ⟨c, ha.parent, i :: c, ⟨ha, ⟨i, rfl⟩, hmatches⟩, hchain⟩

end Paths

end SelectorPath
