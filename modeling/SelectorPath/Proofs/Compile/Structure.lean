import SelectorPath.Compiler
import SelectorPath.Proofs.Compile.WellFormed

/-!
The text of a compiled list has the tree that is meant for its selectors, and the values in the
selectors (class names, ids and the values of attributes) only fill in constant texts of this
tree: selectors with the same outline have trees with the same outline. Of a value, the outline
keeps whether the test with it is compiled to `false()`.
-/

namespace SelectorPath

open Text XPath Syntax

/-! ## Trees without their constant texts -/

namespace XPath.Syntax

def Tree.isLiteral : Tree → Bool
  | .literal _ => true
  | _ => false

mutual

/-- A tree with every constant text left blank. A concatenation of literals is one such text. -/
def Tree.outline : Tree → Tree
  | .binary op a b => .binary op a.outline b.outline
  | .negative a => .negative a.outline
  | .literal _ => .literal ""
  | .number n => .number n
  | .call f arguments =>
    if f = "concat" ∧ arguments.all Tree.isLiteral then .literal ""
    else .call f (Tree.outlines arguments)
  | .path fromRoot steps => .path fromRoot (TreeStep.outlines steps)

def Tree.outlines : List Tree → List Tree
  | [] => []
  | tree :: rest => tree.outline :: Tree.outlines rest

def TreeStep.outline : TreeStep → TreeStep
  | .mk axis test predicates => .mk axis test (Tree.outlines predicates)

def TreeStep.outlines : List TreeStep → List TreeStep
  | [] => []
  | step :: rest => step.outline :: TreeStep.outlines rest

end

theorem Tree.outlines_eq_map (trees : List Tree) : Tree.outlines trees = trees.map Tree.outline := by
  induction trees with
  | nil => rfl
  | cons tree trees ih => simp [Tree.outlines, ih]

theorem TreeStep.outlines_eq_map (steps : List TreeStep) :
    TreeStep.outlines steps = steps.map TreeStep.outline := by
  induction steps with
  | nil => rfl
  | cons step steps ih => simp [TreeStep.outlines, ih]

theorem Tree.outline_chain (op : Op) (trees : List Tree) :
    (Tree.chain op trees).outline = Tree.chain op (trees.map Tree.outline) := by
  have hfold (first : Tree) (rest : List Tree) :
      (rest.foldl (.binary op) first).outline =
        (rest.map Tree.outline).foldl (.binary op) first.outline := by
    induction rest generalizing first with
    | nil => rfl
    | cons tree rest ih => simp [ih, Tree.outline]
  cases trees with
  | nil => simp [Tree.chain, Tree.outline, Tree.outlines]
  | cons first rest => exact hfold first rest

end XPath.Syntax

/-! ## Selectors without their values -/

/-- A test with its value left blank. What is kept of the value is whether the test is compiled to
`false()`. -/
def AttributeTest.outline : AttributeTest → AttributeTest
  | .present name => .present name
  | .compare name operator value =>
    .compare name operator (if isVacuous operator value then "" else "-")

mutual

/-- A qualifier with its values left blank. -/
def Qualifier.outline : Qualifier → Qualifier
  | .className _ => .className ""
  | .id _ => .id ""
  | .attributeTest test => .attributeTest test.outline
  | .place p among => .place p among
  | .nth formula among => .nth formula among
  | .negation element qualifiers => .negation element (Qualifier.outlines qualifiers)

def Qualifier.outlines : List Qualifier → List Qualifier
  | [] => []
  | q :: rest => q.outline :: Qualifier.outlines rest

end

def Compound.outline (compound : Compound) : Compound :=
  ⟨compound.element, Qualifier.outlines compound.qualifiers⟩

def Step.outline (step : Step) : Step := ⟨step.combinator, step.compound.outline⟩

def Selector.outline (selector : Selector) : Selector := ⟨selector.steps.map Step.outline⟩

theorem Qualifier.outlines_eq_map (qualifiers : List Qualifier) :
    Qualifier.outlines qualifiers = qualifiers.map Qualifier.outline := by
  induction qualifiers with
  | nil => rfl
  | cons q rest ih => simp [Qualifier.outlines, ih]

theorem Qualifier.isSameType_outline (q : Qualifier) : q.outline.isSameType = q.isSameType := by
  cases q <;> rfl

/-! ## The outline of a term -/

/-- What is left of an expression when its constant texts are left blank. -/
def XPath.Expr.outline (e : Expr) : Tree := e.tree.outline

theorem trees_outline (terms : List Expr) :
    (Tree.chain .and (Expr.trees terms)).outline = .chain .and (terms.map Expr.outline) := by
  rw [Tree.outline_chain, Expr.trees_eq_map, List.map_map]
  rfl

theorem ofText_outline (text : String) : (Expr.ofText text).outline = .literal "" := by
  unfold Expr.ofText Expr.outline
  split
  · rfl
  · split
    · rfl
    · simp [Expr.tree, Expr.trees_eq_map, Tree.outline, Function.name, Tree.isLiteral]

theorem hasWord_outline (target : Expr) (word other : String) :
    (AttributeTest.hasWord target word).outline = (AttributeTest.hasWord target other).outline := by
  have hword := ofText_outline (" " ++ word ++ " ")
  have hother := ofText_outline (" " ++ other ++ " ")
  simp only [Expr.outline] at hword hother
  simp [AttributeTest.hasWord, Expr.outline, Expr.tree, Expr.trees, Tree.outline, Tree.outlines,
    Function.name, hword, hother]

theorem comparison_outline (target : Expr) (operator : AttributeOperator) (value other : String) :
    (AttributeTest.comparison target operator value).outline =
      (AttributeTest.comparison target operator other).outline := by
  have htext (text : String) : (Expr.ofText text).tree.outline = .literal "" := ofText_outline text
  cases operator with
  | includes => exact hasWord_outline target value other
  | equals | dashMatch | startsWith | endsWith | contains =>
    simp [AttributeTest.comparison, Expr.outline, Expr.tree, Expr.trees, Tree.outline,
      Tree.outlines, Function.name, htext]

theorem AttributeTest.isVacuous_blank (operator : AttributeOperator) (value : String) :
    isVacuous operator (if isVacuous operator value then "" else "-") =
      isVacuous operator value := by
  by_cases h : isVacuous operator value
  · rw [if_pos h, h]
    cases operator with
    | equals | dashMatch => simp [isVacuous] at h
    | includes | startsWith | endsWith | contains => rfl
  · rw [if_neg h, Bool.eq_false_iff.mpr h]
    cases operator <;> decide +kernel

theorem AttributeTest.term_outline (test : AttributeTest) :
    test.outline.term.outline = test.term.outline := by
  cases test with
  | present name => rfl
  | compare name operator value =>
    simp only [AttributeTest.outline, term, isVacuous_blank]
    by_cases h : isVacuous operator value
    · simp only [h, if_true]
    · simpa only [if_neg h] using comparison_outline _ operator "-" value

theorem negateTerms_outline {terms other : List Expr}
    (h : terms.map Expr.outline = other.map Expr.outline) :
    (negateTerms terms).outline = (negateTerms other).outline := by
  have hnegation {terms : List Expr} (hne : terms ≠ []) :
      (negateTerms terms).outline = .call "not" [.chain .and (terms.map Expr.outline)] := by
    cases terms with
    | nil => exact absurd rfl hne
    | cons e rest =>
      simp only [negateTerms, Expr.outline, Expr.tree, Tree.outline, Tree.outlines, trees_outline]
      rfl
  by_cases hne : terms = []
  · subst hne
    rw [List.map_eq_nil_iff.mp h.symm]
  · have hne' : other ≠ [] := by
      rintro rfl
      exact hne (List.map_eq_nil_iff.mp h)
    rw [hnegation hne, hnegation hne', h]

mutual

theorem Qualifier.terms_outline (q : Qualifier) (scope : Scope) :
    (q.outline.terms scope).map Expr.outline = (q.terms scope).map Expr.outline := by
  match q with
  | .className name => simp [Qualifier.outline, Qualifier.terms, hasWord_outline _ "" name]
  | .id name =>
    have hid := comparison_outline (.attributeNamed "id") .equals "" name
    simpa [Qualifier.outline, Qualifier.terms, AttributeTest.comparison] using hid
  | .attributeTest test => simp [Qualifier.outline, Qualifier.terms, AttributeTest.term_outline]
  | .place p among => rfl
  | .nth formula among => rfl
  | .negation element qualifiers =>
    have hterms := Qualifier.allTerms_outline qualifiers
      (.counted ((ElementTest.name? element).or scope.element))
    simp only [Qualifier.outline, Qualifier.terms, List.map_cons, List.map_nil]
    rw [negateTerms_outline]
    simp only [List.map_append, hterms]

theorem Qualifier.allTerms_outline (qualifiers : List Qualifier) (scope : Scope) :
    (Qualifier.allTerms scope (Qualifier.outlines qualifiers)).map Expr.outline =
      (Qualifier.allTerms scope qualifiers).map Expr.outline := by
  match qualifiers with
  | [] => rfl
  | q :: rest =>
    simp only [Qualifier.outlines, Qualifier.allTerms, List.map_append]
    rw [Qualifier.terms_outline q scope, Qualifier.allTerms_outline rest scope]

end

/-! ## The outline of a path -/

theorem Qualifier.outlines_filter (keep : Qualifier → Bool)
    (hkeep : ∀ q : Qualifier, keep q.outline = keep q) (qualifiers : List Qualifier) :
    (Qualifier.outlines qualifiers).filter keep = Qualifier.outlines (qualifiers.filter keep) := by
  have hcomp : keep ∘ Qualifier.outline = keep := funext hkeep
  rw [outlines_eq_map, outlines_eq_map, List.filter_map, hcomp]

theorem Compound.layout_outline (compound : Compound) (toChildren : Bool) :
    (compound.outline.layout toChildren).map (·.map Expr.outline) =
      (compound.layout toChildren).map (·.map Expr.outline) := by
  have hany : (Qualifier.outlines compound.qualifiers).any Qualifier.isSameType =
      compound.qualifiers.any Qualifier.isSameType := by
    rw [Qualifier.outlines_eq_map, List.any_map]
    exact congrArg _ (funext Qualifier.isSameType_outline)
  have hsame := Qualifier.outlines_filter _ Qualifier.isSameType_outline compound.qualifiers
  have hother := Qualifier.outlines_filter (fun q => !q.isSameType)
    (fun q => congrArg (!·) q.isSameType_outline) compound.qualifiers
  simp only [layout, outline, hany, hsame, hother]
  split
  · simp [Qualifier.allTerms_outline]
  · split <;> simp [Qualifier.allTerms_outline]

theorem Compound.brackets_outline (compound : Compound) (toChildren : Bool) :
    (compound.outline.brackets toChildren).map (·.map Expr.outline) =
      (compound.brackets toChildren).map (·.map Expr.outline) := by
  have hfilter (layout : List (List Expr)) :
      (layout.filter fun terms => !terms.isEmpty).map (·.map Expr.outline) =
        (layout.map (·.map Expr.outline)).filter fun terms => !terms.isEmpty := by
    rw [List.filter_map]
    congr 2
    funext terms
    simp
  rw [brackets, brackets, hfilter, hfilter, layout_outline]

theorem tree_outline_of_brackets {axis : Axis} {test : NodeTest}
    {brackets other : List (List Expr)}
    (h : brackets.map (·.map Expr.outline) = other.map (·.map Expr.outline)) :
    (XPath.Step.mk axis test brackets).tree.outline =
      (XPath.Step.mk axis test other).tree.outline := by
  have hbrackets (brackets : List (List Expr)) :
      (XPath.Step.mk axis test brackets).tree.outline =
        .mk axis.toName test.toTest ((brackets.map (·.map Expr.outline)).map (.chain .and)) := by
    simp [XPath.Step.tree, TreeStep.outline, Tree.outlines_eq_map, trees_outline]
  rw [hbrackets, hbrackets, h]

theorem Step.path_outline (step : Step) :
    step.outline.path.map (fun s => s.tree.outline) = step.path.map (fun s => s.tree.outline) := by
  have hbrackets := step.compound.brackets_outline step.combinator.leadsToChildren
  simp only [path, outline]
  split
  · simp [tree_outline_of_brackets hbrackets]
  · simp [tree_outline_of_brackets hbrackets]
  · simp only [List.map_cons, List.map_nil]
    rw [tree_outline_of_brackets]
    simp only [List.map_cons, hbrackets]
  · simp [tree_outline_of_brackets hbrackets]

theorem Selector.path_outline (selector : Selector) (anchor : Anchor) :
    (selector.outline.path anchor).tree.outline = (selector.path anchor).tree.outline := by
  simp only [path, outline, Path.tree, Tree.outline, TreeStep.outlines_eq_map, List.map_map,
    List.map_flatMap, List.flatMap_map]
  congr 1
  exact congrArg (selector.steps.flatMap ·) (funext Step.path_outline)

/-! ## Selectors with the same outline -/

mutual

theorem Qualifier.each_outline {E : Option ElementTest → Prop} (q : Qualifier) :
    q.outline.Each E Qualifier.AttributeNamed ↔ q.Each E Qualifier.AttributeNamed := by
  match q with
  | .negation element qualifiers =>
    simp only [Qualifier.outline, Qualifier.Each, Qualifier.allEach_outline qualifiers]
  | .attributeTest (.present name) | .attributeTest (.compare name _ _) => exact Iff.rfl
  | .className _ | .id _ | .place _ _ | .nth _ _ => exact Iff.rfl

theorem Qualifier.allEach_outline {E : Option ElementTest → Prop} (qualifiers : List Qualifier) :
    Qualifier.AllEach E Qualifier.AttributeNamed (Qualifier.outlines qualifiers) ↔
      Qualifier.AllEach E Qualifier.AttributeNamed qualifiers := by
  match qualifiers with
  | [] => exact Iff.rfl
  | q :: rest =>
    simp only [Qualifier.outlines, Qualifier.AllEach, Qualifier.each_outline q,
      Qualifier.allEach_outline rest]

end

theorem Compound.xpathNamed_outline (compound : Compound) :
    compound.outline.XPathNamed ↔ compound.XPathNamed := by
  have hqualifiers : Qualifier.AllEach ElementTest.Named _ compound.outline.qualifiers ↔ _ :=
    Qualifier.allEach_outline compound.qualifiers
  exact ⟨fun h => ⟨h.element, hqualifiers.mp h.qualifiers⟩,
    fun h => ⟨h.element, hqualifiers.mpr h.qualifiers⟩⟩

theorem Selector.xpathNamed_outline (selector : Selector) :
    selector.outline.XPathNamed ↔ selector.XPathNamed := by
  have hsteps : (∀ step ∈ selector.outline.steps, step.compound.XPathNamed) ↔
      ∀ step ∈ selector.steps, step.compound.XPathNamed := by
    simp [outline, Step.outline, Compound.xpathNamed_outline]
  have hne : selector.outline.steps ≠ [] ↔ selector.steps ≠ [] := by simp [outline]
  exact ⟨fun h => ⟨hne.mp h.ne_nil, hsteps.mp h.steps⟩,
    fun h => ⟨hne.mpr h.ne_nil, hsteps.mpr h.steps⟩⟩

namespace SelectorList

/-- The tree that is meant for selectors: a union with one path for each. -/
def tree (anchor : Anchor) (selectors : List Selector) : Tree :=
  unionTree (selectors.map (Selector.path anchor))

theorem tree_outline (anchor : Anchor) (selectors : List Selector) :
    (tree anchor (selectors.map Selector.outline)).outline = (tree anchor selectors).outline := by
  simp [tree, unionTree, Tree.outline_chain, Selector.path_outline, Function.comp_def]

/-- The text of selectors with names has the tree that is meant for them. -/
theorem ofText?_xpath {anchor : Anchor} {selectors : List Selector} (hne : selectors ≠ [])
    (h : ∀ selector ∈ selectors, selector.XPathNamed) :
    Tree.ofText? (xpath anchor selectors) = some (tree anchor selectors) := by
  refine ofText?_renderUnion (by simpa using hne) fun path hpath => ?_
  obtain ⟨selector, hselector, rfl⟩ := List.mem_map.mp hpath
  exact (h selector hselector).path anchor

/-- Selectors with the same outline as selectors with names have names. -/
theorem xpathNamed_of_outline {selectors other : List Selector}
    (h : ∀ selector ∈ selectors, selector.XPathNamed)
    (houtline : other.map Selector.outline = selectors.map Selector.outline) :
    ∀ selector ∈ other, selector.XPathNamed := by
  intro selector hselector
  have hmem : selector.outline ∈ selectors.map Selector.outline := by
    rw [← houtline]
    exact List.mem_map_of_mem hselector
  obtain ⟨same, hsame, heq⟩ := List.mem_map.mp hmem
  rw [← Selector.xpathNamed_outline, ← heq, Selector.xpathNamed_outline]
  exact h same hsame

end SelectorList

/-- A compiled text has the tree that is meant for the selectors of the list. If other values stand
in the selectors and the same tests of attributes are compiled to `false()`, which the outline of a
selector keeps, the tree differs in constant texts only. -/
theorem compile_eq_ok_tree {options : Options} {text result : String}
    (h : compile .standard options text = .ok result) :
    ∃ list, SelectorList.ofText .standard options text = .ok list ∧
      Tree.ofText? result = some (SelectorList.tree options.anchor list.selectors) ∧
      ∀ other, other.map Selector.outline = list.selectors.map Selector.outline →
        ∃ tree, Tree.ofText? (SelectorList.xpath options.anchor other) = some tree ∧
          tree.outline = (SelectorList.tree options.anchor list.selectors).outline := by
  unfold compile at h
  obtain ⟨list, hlist, hresult⟩ := bind_eq_ok_iff.mp h
  obtain rfl := Except.ok.inj hresult
  obtain ⟨hne, hwellFormed⟩ := SelectorList.ofText_wellFormed hlist
  have hnamed selector (hselector : selector ∈ list.selectors) : selector.XPathNamed :=
    (hwellFormed selector hselector).xpathNamed
  refine ⟨list, hlist, SelectorList.ofText?_xpath hne hnamed, fun other houtline => ?_⟩
  have hother : other ≠ [] := by
    rintro rfl
    exact hne (List.map_eq_nil_iff.mp houtline.symm)
  refine ⟨_, SelectorList.ofText?_xpath hother
    (SelectorList.xpathNamed_of_outline hnamed houtline), ?_⟩
  rw [← SelectorList.tree_outline, houtline, SelectorList.tree_outline]

/-- A value with both quotes, a bracket, a bar and the name of an operator, at an element whose
name is that of an operator. -/
theorem compile_eq_ok_tree_quotes : ∃ list,
    compile .standard .standard "and[or=\"] | ' \\\" and\"]" =
        .ok "descendant-or-self::*/child::*[self::and and @or=concat(\"] | ' \", '\"', \" and\")]" ∧
      SelectorList.ofText .standard .standard "and[or=\"] | ' \\\" and\"]" = .ok list ∧
      Tree.ofText?
          "descendant-or-self::*/child::*[self::and and @or=concat(\"] | ' \", '\"', \" and\")]" =
        some (SelectorList.tree .context list.selectors) := by
  have h : compile .standard .standard "and[or=\"] | ' \\\" and\"]" =
      .ok "descendant-or-self::*/child::*[self::and and @or=concat(\"] | ' \", '\"', \" and\")]" := by
    cbv
  obtain ⟨list, hlist, htree, -⟩ := compile_eq_ok_tree h
  exact ⟨list, h, hlist, htree⟩

end SelectorPath
