import SelectorPath.Compile.Selector
import SelectorPath.Proofs.Text.Classes

/-!
The order of qualifiers in compiled steps. The text of a step is a lead that its combinator decides
and brackets of terms (`Step.xpath_eq`). Another order of the qualifiers gives the same brackets with
their terms in another order (`Compound.brackets_perm`), and another order in the arguments of
negations, at any depth, gives the same brackets but for the order in negations
(`Compound.brackets_rearranged`).
-/

namespace SelectorPath

open XPath

/-! ## Order inside of trees -/

/-- The same trees one by one, up to the order of the trees that `branch` puts together, at any
depth. -/
inductive Rearranged {ι α : Type} (branch : ι → List α → α) : List α → List α → Prop
  | nil : Rearranged branch [] []
  | cons (a : α) {rest rest' : List α} :
      Rearranged branch rest rest' → Rearranged branch (a :: rest) (a :: rest')
  | inside (i : ι) {inner middle inner' rest rest' : List α} :
      Rearranged branch inner middle → middle.Perm inner' → Rearranged branch rest rest' →
      Rearranged branch (branch i inner :: rest) (branch i inner' :: rest')

namespace Rearranged

variable {ι α : Type} {branch : ι → List α → α} {l l' m m' : List α}

theorem refl (l : List α) : Rearranged branch l l := by
  induction l with
  | nil => exact .nil
  | cons a rest ih => exact .cons a ih

theorem append (h : Rearranged branch l l') (hm : Rearranged branch m m') :
    Rearranged branch (l ++ m) (l' ++ m') := by
  induction h with
  | nil => exact hm
  | cons a _ ih => exact .cons a ih
  | inside i hinner hperm _ _ ih => exact .inside i hinner hperm ih

theorem isEmpty_eq (h : Rearranged branch l l') : l.isEmpty = l'.isEmpty := by
  cases h <;> rfl

/-- What is the same for all branches at a place keeps the trees at the same places. -/
theorem filter {keep : α → Bool} (hkeep : ∀ i l l', keep (branch i l) = keep (branch i l'))
    (h : Rearranged branch l l') : Rearranged branch (l.filter keep) (l'.filter keep) := by
  induction h with
  | nil => exact .nil
  | cons a _ ih =>
    simp only [List.filter_cons]
    split
    · exact .cons a ih
    · exact ih
  | @inside i inner _ inner' _ _ hinner hperm _ _ ih =>
    simp only [List.filter_cons, hkeep i inner inner']
    split
    · exact .inside i hinner hperm ih
    · exact ih

theorem any_eq {p : α → Bool} (hp : ∀ i l l', p (branch i l) = p (branch i l'))
    (h : Rearranged branch l l') : l.any p = l'.any p := by
  induction h with
  | nil => rfl
  | cons a _ ih => simp only [List.any_cons, ih]
  | @inside i inner _ inner' _ _ _ _ _ _ ih => simp only [List.any_cons, hp i inner inner', ih]

end Rearranged

/-- The same qualifiers, up to their order in the arguments of negations. -/
abbrev Qualifier.Rearranged : List Qualifier → List Qualifier → Prop :=
  SelectorPath.Rearranged Qualifier.negation

/-- The same terms, up to their order in negations. -/
abbrev XPath.Expr.Rearranged : List Expr → List Expr → Prop :=
  SelectorPath.Rearranged fun _ : Unit => Expr.negation

/-! ## Terms -/

namespace Qualifier

variable {qualifiers qualifiers' : List Qualifier}

theorem allTerms_eq_flatMap (scope : Scope) (qualifiers : List Qualifier) :
    allTerms scope qualifiers = qualifiers.flatMap (terms scope) := by
  induction qualifiers with
  | nil => rfl
  | cons q rest ih => rw [allTerms, ih, List.flatMap_cons]

theorem allTerms_perm (h : qualifiers.Perm qualifiers') (scope : Scope) :
    (allTerms scope qualifiers).Perm (allTerms scope qualifiers') := by
  rw [allTerms_eq_flatMap, allTerms_eq_flatMap]
  exact h.flatMap_right (terms scope)

/-- Only a negation of no terms is not written as one, and then there is nothing to reorder. -/
theorem negateTerms_rearranged {terms middle terms' : List Expr} (h : Expr.Rearranged terms middle)
    (hperm : middle.Perm terms') : Expr.Rearranged [negateTerms terms] [negateTerms terms'] := by
  cases terms with
  | nil =>
    cases h
    obtain rfl := hperm.nil_eq
    exact .refl _
  | cons e rest =>
    cases terms' with
    | nil =>
      obtain rfl := hperm.eq_nil
      simpa using h.isEmpty_eq
    | cons e' rest' => exact .inside () h hperm .nil

theorem allTerms_rearranged (h : Rearranged qualifiers qualifiers') (scope : Scope) :
    Expr.Rearranged (allTerms scope qualifiers) (allTerms scope qualifiers') := by
  induction h generalizing scope with
  | nil => exact .nil
  | cons q _ ih =>
    rw [allTerms, allTerms]
    exact (SelectorPath.Rearranged.refl _).append (ih scope)
  | inside element _ hperm _ ihinner ihrest =>
    rw [allTerms, allTerms, terms, terms]
    have harguments := (SelectorPath.Rearranged.refl (ElementTest.terms element)).append
      (ihinner (.counted ((ElementTest.name? element).or scope.element)))
    exact (negateTerms_rearranged harguments ((allTerms_perm hperm _).append_left _)).append
      (ihrest scope)

end Qualifier

/-! ## Brackets -/

namespace Compound

variable {qualifiers qualifiers' : List Qualifier}

/-- Where qualifiers stand in brackets depends on what kind of test each of them is, and not on
their order, so a relation between the terms of all qualifiers of a kind holds between brackets. -/
theorem brackets_forall₂ {R : List Expr → List Expr → Prop} (hrefl : ∀ terms, R terms terms)
    (happend : ∀ name terms terms', R terms terms' → R (name ++ terms) (name ++ terms'))
    (hempty : ∀ terms terms', R terms terms' → terms.isEmpty = terms'.isEmpty)
    (hall : ∀ scope, R (Qualifier.allTerms scope qualifiers) (Qualifier.allTerms scope qualifiers'))
    (hkind : ∀ scope, ∀ keep ∈ [Qualifier.isSameType, fun q => !q.isSameType],
      R (Qualifier.allTerms scope (qualifiers.filter keep))
        (Qualifier.allTerms scope (qualifiers'.filter keep)))
    (hany : qualifiers.any Qualifier.isSameType = qualifiers'.any Qualifier.isSameType)
    (toChildren : Bool) (element : Option ElementTest) :
    List.Forall₂ R (brackets toChildren ⟨element, qualifiers⟩)
      (brackets toChildren ⟨element, qualifiers'⟩) := by
  have hlayout : List.Forall₂ R (layout toChildren ⟨element, qualifiers⟩)
      (layout toChildren ⟨element, qualifiers'⟩) := by
    simp only [layout, hany]
    split
    · exact .cons (happend _ _ _ (hall _)) .nil
    · split
      · exact .cons (happend _ _ _ (hall _)) .nil
      · exact .cons (hrefl _) (.cons (hkind _ _ (by simp)) (.cons (hkind _ _ (by simp)) .nil))
  refine List.rel_filter (fun terms terms' h => ?_) hlayout
  simp [hempty terms terms' h]

theorem brackets_perm (h : qualifiers.Perm qualifiers') (toChildren : Bool)
    (element : Option ElementTest) :
    List.Forall₂ List.Perm (brackets toChildren ⟨element, qualifiers⟩)
      (brackets toChildren ⟨element, qualifiers'⟩) := by
  refine brackets_forall₂ .refl (fun name _ _ h => h.append_left name) (fun _ _ h => ?_)
    (Qualifier.allTerms_perm h) (fun scope keep _ => Qualifier.allTerms_perm (h.filter keep) scope)
    h.any_eq toChildren element
  rw [Bool.eq_iff_iff, List.isEmpty_iff_length_eq_zero, List.isEmpty_iff_length_eq_zero,
    h.length_eq]

theorem brackets_rearranged (h : Qualifier.Rearranged qualifiers qualifiers') (toChildren : Bool)
    (element : Option ElementTest) :
    List.Forall₂ Expr.Rearranged (brackets toChildren ⟨element, qualifiers⟩)
      (brackets toChildren ⟨element, qualifiers'⟩) := by
  refine brackets_forall₂ .refl (fun name _ _ h => (Rearranged.refl name).append h)
    (fun _ _ h => h.isEmpty_eq) (Qualifier.allTerms_rearranged h) (fun scope keep hkeep => ?_)
    (h.any_eq fun _ _ _ => rfl) toChildren element
  refine Qualifier.allTerms_rearranged (h.filter fun element l l' => ?_) scope
  have hsame : (Qualifier.negation element l).isSameType =
      (Qualifier.negation element l').isSameType := rfl
  rcases List.mem_pair.mp hkeep with rfl | rfl
  · exact hsame
  · exact congrArg (!·) hsame

end Compound

/-! ## Texts -/

/-- The text of the steps on the way to the elements that a combinator leads to. -/
def Combinator.lead : Combinator → String
  | .descendant => "descendant-or-self::*/child::*"
  | .child => "child::*"
  | .nextSibling => "following-sibling::*[position()=1]"
  | .laterSibling => "following-sibling::*"

/-- The text of the brackets of a step. -/
def bracketTexts (brackets : List (List Expr)) : String :=
  String.join (brackets.map fun terms => "[" ++ renderTerms terms ++ "]")

namespace Step

/-- The text of the location steps of a step. -/
def xpath (step : Step) : String := "/".intercalate (step.path.map XPath.Step.render)

theorem xpath_eq (step : Step) :
    step.xpath = step.combinator.lead ++
      bracketTexts (step.compound.brackets step.combinator.leadsToChildren) := by
  obtain ⟨combinator, compound⟩ := step
  cases combinator with
  | descendant | child | laterSibling =>
    simp [xpath, path, XPath.Step.render, Axis.name, NodeTest.render, Combinator.lead, bracketTexts,
      ← String.append_assoc]
  | nextSibling =>
    have hfirst : renderTerms [Position.exact.first] = "position()=1" := by decide
    simp [xpath, path, XPath.Step.render, Axis.name, NodeTest.render, Combinator.lead, bracketTexts,
      hfirst, ← String.append_assoc]

end Step

/-- The text of a path is made of the texts of its steps. -/
theorem Selector.render_path (anchor : Anchor) (selector : Selector) :
    (selector.path anchor).render =
      (if anchor = .document then "/" else "") ++
        "/".intercalate (selector.steps.map Step.xpath) := by
  have hne : ∀ step : Step, step.path.map XPath.Step.render ≠ [] := by
    rintro ⟨combinator, compound⟩
    cases combinator <;> simp [Step.path]
  have hsteps : ∀ steps : List Step,
      "/".intercalate ((steps.flatMap Step.path).map XPath.Step.render) =
        "/".intercalate (steps.map Step.xpath) := by
    intro steps
    induction steps with
    | nil => rfl
    | cons step rest ih =>
      cases rest with
      | nil => simp [Step.xpath]
      | cons next rest =>
        have hrest : ((next :: rest).flatMap Step.path).map XPath.Step.render ≠ [] := by
          simpa using fun h => absurd h (by simpa using hne next)
        rw [List.flatMap_cons, List.map_append, String.intercalate_append_of_ne_nil (hne step) hrest,
          ih]
        simp only [List.map_cons, String.intercalate_cons_cons]
        rfl
  simp [Selector.path, Path.render, hsteps]

end SelectorPath
