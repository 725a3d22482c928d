import SelectorPath.CommandLine.Run
import SelectorPath.Proofs.Json.Printing
import SelectorPath.Proofs.Selector.Soundness
import SelectorPath.Proofs.XPath.Evaluation

/-!
The trees that are printed for selectors. A document has the shape of the tree it was made from,
so the tree can be made from it again (`Selector.listOfJson?_listToJson`), and the printed text
is a text of that document and of no other. So nothing of a tree is lost in print.
-/

namespace SelectorPath

open Json XPath

/-! ## Parts of selectors -/

theorem Formula.int64OfJson?_number (a : Int64) : int64OfJson? (.number a.toInt) = some a := by
  have hmin : Int64.minValue.toInt = -2 ^ 63 := rfl
  have hmax : Int64.maxValue.toInt = 2 ^ 63 - 1 := rfl
  have hlow := a.le_toInt
  have hhigh := a.toInt_lt
  rw [int64OfJson?, if_pos (by omega), Int64.ofInt_toInt]

theorem Formula.ofJson?_toJson (formula : Formula) : ofJson? formula.toJson = some formula := by
  cases formula with
  | odd => rfl
  | even => rfl
  | linear a b =>
    have hread : ofJson? (linear a b).toJson =
        (int64OfJson? (.number a.toInt)).bind fun a =>
          (int64OfJson? (.number b.toInt)).bind fun b => some (.linear a b) := rfl
    rw [hread, int64OfJson?_number, int64OfJson?_number]
    rfl

theorem AttributeOperator.ofName?_name (operator : AttributeOperator) :
    ofName? operator.name = some operator := by
  cases operator <;> decide

theorem AttributeTest.ofJson?_toJson (test : AttributeTest) : ofJson? test.toJson = some test := by
  cases test with
  | present name => rfl
  | compare name operator value =>
    have hread : ofJson? (compare name operator value).toJson =
        (AttributeOperator.ofName? operator.name).map (.compare name · value) := rfl
    rw [hread, AttributeOperator.ofName?_name]
    rfl

theorem ElementTest.ofJson?_toJson (element : Option ElementTest) :
    ofJson? (toJson element) = some element := by
  cases element with
  | none => rfl
  | some test => cases test <;> rfl

theorem Combinator.ofName?_name (combinator : Combinator) :
    ofName? combinator.name = some combinator := by
  cases combinator <;> decide

theorem Qualifier.ofPlace?_name (p : Place) (among : Among) :
    ofPlace? (PseudoClass.place p among).name = some (.place p among) := by
  rw [ofPlace?, PseudoClass.ofName?_iff.mpr rfl]

mutual

/-- The document of a qualifier gives the qualifier back, however deep its negations are. -/
theorem Qualifier.ofJson?_toJson (q : Qualifier) : ofJson? q.toJson = some q := by
  cases q with
  | className name => rfl
  | id name => rfl
  | attributeTest test =>
    have hread : ofJson? (attributeTest test).toJson =
        (AttributeTest.ofJson? test.toJson).map .attributeTest := rfl
    rw [hread, test.ofJson?_toJson]
    rfl
  | place p among => exact ofPlace?_name p among
  | nth formula among =>
    have hread : ofJson? (nth formula among).toJson =
        (Formula.ofJson? formula.toJson).map (.nth · among) := by
      cases among <;> rfl
    rw [hread, formula.ofJson?_toJson]
    rfl
  | negation element qualifiers =>
    have hread : ofJson? (negation element qualifiers).toJson =
        (ElementTest.ofJson? (ElementTest.toJson element)).bind fun element =>
          (listOfJson? (listToJson qualifiers)).bind fun qualifiers =>
            some (.negation element qualifiers) := rfl
    rw [hread, ElementTest.ofJson?_toJson, Qualifier.listOfJson?_listToJson qualifiers]
    rfl

theorem Qualifier.listOfJson?_listToJson (qualifiers : List Qualifier) :
    listOfJson? (listToJson qualifiers) = some qualifiers := by
  cases qualifiers with
  | nil => rfl
  | cons q rest =>
    have hread : listOfJson? (listToJson (q :: rest)) =
        (ofJson? q.toJson).bind fun q => (listOfJson? (listToJson rest)).bind fun rest =>
          some (q :: rest) := rfl
    rw [hread, Qualifier.ofJson?_toJson q, Qualifier.listOfJson?_listToJson rest]
    rfl

end

theorem Compound.ofJson?_toJson (compound : Compound) :
    ofJson? compound.toJson = some compound := by
  have hread : ofJson? compound.toJson =
      (ElementTest.ofJson? (ElementTest.toJson compound.element)).bind fun element =>
        (Qualifier.listOfJson? (Qualifier.listToJson compound.qualifiers)).bind fun qualifiers =>
          some ⟨element, qualifiers⟩ := rfl
  rw [hread, ElementTest.ofJson?_toJson, Qualifier.listOfJson?_listToJson]
  rfl

theorem Step.ofJson?_toJson (step : Step) : ofJson? step.toJson = some step := by
  have hread : ofJson? step.toJson =
      (Combinator.ofName? step.combinator.name).bind fun combinator =>
        (Compound.ofJson? step.compound.toJson).bind fun compound =>
          some ⟨combinator, compound⟩ := rfl
  rw [hread, Combinator.ofName?_name, step.compound.ofJson?_toJson]
  rfl

/-! ## Selectors -/

namespace Selector

theorem ofJson?_toJson (selector : Selector) : ofJson? selector.toJson = some selector := by
  have hsteps : (selector.steps.map Step.toJson).mapM Step.ofJson? = some selector.steps := by
    rw [mapM_map_eq_some (g := id) fun step _ => step.ofJson?_toJson, List.map_id]
  have hread : ofJson? selector.toJson =
      ((selector.steps.map Step.toJson).mapM Step.ofJson?).map (⟨·⟩) := rfl
  rw [hread, hsteps]
  rfl

theorem listOfJson?_listToJson (selectors : List Selector) :
    listOfJson? (listToJson selectors) = some selectors := by
  have hread : listOfJson? (listToJson selectors) = (selectors.map toJson).mapM ofJson? := rfl
  rw [hread, mapM_map_eq_some (g := id) fun selector _ => selector.ofJson?_toJson, List.map_id]

/-- A text of the document of some selectors says which selectors they are. -/
theorem eq_of_documentText {text : List Char} {selectors selectors' : List Selector}
    (h : DocumentText text (listToJson selectors))
    (h' : DocumentText text (listToJson selectors')) : selectors = selectors' := by
  have hdecode := congrArg listOfJson? (h.unique h')
  rw [listOfJson?_listToJson, listOfJson?_listToJson] at hdecode
  exact Option.some.inj hdecode

end Selector

namespace CommandLine

/-- The tree that is printed for a list of selectors is a JSON text. Whatever document it is read
as is the document of these selectors, and lists of different selectors have different trees. -/
theorem rendered_tree_decodes (settings : Settings) (list : SelectorList) :
    (∃ j, DocumentText (rendered { settings with tree := true } list).toList j) ∧
    (∀ j, DocumentText (rendered { settings with tree := true } list).toList j →
      Selector.listOfJson? j = some list.selectors) ∧
    ∀ settings' : Settings, ∀ list' : SelectorList, list'.selectors ≠ list.selectors →
      rendered { settings' with tree := true } list' ≠
        rendered { settings with tree := true } list := by
  have htext (settings : Settings) (list : SelectorList) :
      DocumentText (rendered { settings with tree := true } list).toList
        (Selector.listToJson list.selectors) := render_text _
  refine ⟨⟨_, htext settings list⟩, fun j hj => ?_, fun settings' list' hne hsame => hne ?_⟩
  · rw [hj.unique (htext settings list), Selector.listOfJson?_listToJson]
  · have htext' := htext settings' list'
    rw [hsame] at htext'
    exact Selector.eq_of_documentText htext' (htext settings list)

end CommandLine

end SelectorPath
