import SelectorPath.Proofs.Compile.Formulas
import SelectorPath.Proofs.Compile.Paths

/-!
The two ways to refer to a position agree. The number of a node in a bracket is its place in the
list that the bracket goes through, and that is one more than the number of siblings in front of it
that the brackets before have left. So a test of a position by this number, in the first bracket of
a step to children or in the bracket after one for the name, is the test that counts siblings
(`Qualifier.exact_agrees_counted`).
-/

namespace SelectorPath

open XPath Syntax

/-! ## Tests of positions -/

namespace Qualifier

/-- The siblings that a test of a position is about. -/
def among? : Qualifier → Option Among
  | .place _ among | .nth _ among => some among
  | _ => none

/-- What a test of a position asks, given the position and the one from the end. -/
def HoldsAt (rank fromEnd : Nat) : Qualifier → Prop
  | .place p _ => p.Matches rank fromEnd
  | .nth formula _ => formula.Selects rank
  | _ => False

variable {q : Qualifier} {among : Among} {scope : Scope}

theorem terms_ne_nil (h : q.among? = some among) : q.terms scope ≠ [] := by
  cases q with
  | place p => cases p <;> exact List.cons_ne_nil _ _
  | nth formula => exact formula.terms_ne_nil _
  | className | id | attributeTest | negation => simp [among?] at h

/-- A test of a position holds at the positions that its scope refers to. -/
theorem testAll_of_shows {doc : Document} {context : Context} {rank fromEnd : Nat}
    (h : q.among? = some among) (hshows : (scope.position among).Shows doc context rank fromEnd) :
    TestAll doc context (q.terms scope) (q.HoldsAt rank fromEnd) := by
  cases q with
  | place p =>
    obtain rfl := Option.some.inj h
    exact hshows.place p
  | nth formula =>
    obtain rfl := Option.some.inj h
    exact formula.terms_testAll hshows.index hshows.pos
  | className | id | attributeTest | negation => simp [among?] at h

/-- The text of a test of a position can be read back. -/
theorem termsWellFormed_of_among (h : q.among? = some among)
    (hposition : (scope.position among).WellFormed) : TermsWellFormed (q.terms scope) := by
  refine termsWellFormed_of_isTerm (terms_ne_nil h) ?_
  cases q with
  | place p =>
    obtain rfl := Option.some.inj h
    exact Position.place_isTerm hposition p
  | nth formula =>
    obtain rfl := Option.some.inj h
    obtain ⟨hindex, hlevel⟩ := Position.index_wellFormed hposition
    exact formula.terms_isTerm hindex hlevel
  | className | id | attributeTest | negation => simp [among?] at h

end Qualifier

/-! ## Siblings -/

namespace Document

variable {doc : Document} {e : Address}

/-- The node that an element is a child of. -/
def parent : Address → Node
  | [] => .root
  | _ :: a => .element a

/-- An element with its siblings, in the order of the document. -/
def siblings (doc : Document) (e : Address) : List Address := before e ++ e :: doc.after e

theorem axis?_parent (he : doc.Has e) :
    doc.axis? .child (parent e) = some ((doc.siblings e).map .element) := by
  cases e with
  | nil => rfl
  | cons i a =>
    rw [siblings, ← children_eq he]
    rfl

theorem siblings_nodup (he : doc.Has e) : (doc.siblings e).Nodup := by
  cases e with
  | nil => simp [siblings, before, after]
  | cons i a =>
    rw [siblings, ← children_eq he]
    exact children_nodup a

end Document

/-! ## Brackets -/

section Brackets

open scoped Classical

variable {doc : Document} {e : Address} {q : Qualifier} {among : Among} {scope : Scope}

/-- The number of a node in a list, and its number from the end. -/
theorem Position.exact_shows_split {addresses l r : List Address} {a : Address}
    (h : addresses = l ++ a :: r) :
    Position.exact.Shows doc ⟨.element a, l.length + 1, addresses.length⟩ (l.length + 1)
      (r.length + 1) := by
  refine exact_shows (Nat.succ_pos _) rfl ?_
  simp only [h, List.length_append, List.length_cons]
  omega

/-- A bracket with a test of the number keeps the elements at the right places of the list. -/
theorem keep?_exact (hq : q.among? = some among) (hexact : scope.position among = .exact)
    {addresses : List Address} (hnodup : addresses.Nodup) :
    ∃ kept : List Node,
      Tree.keep? doc (addresses.map .element) (bracketTrees [q.terms scope]) = some kept ∧
      ∀ l a r, addresses = l ++ a :: r →
        (.element a ∈ kept ↔ q.HoldsAt (l.length + 1) (r.length + 1)) := by
  let P (a : Address) : Prop :=
    ∃ l r, addresses = l ++ a :: r ∧ q.HoldsAt (l.length + 1) (r.length + 1)
  have hP {l r : List Address} {a : Address} (h : addresses = l ++ a :: r) :
      P a ↔ q.HoldsAt (l.length + 1) (r.length + 1) := by
    -- An element stands at one place of the list only.
    refine ⟨?_, fun hholds => ⟨l, r, h, hholds⟩⟩
    rintro ⟨l', r', h', hholds⟩
    rw [h] at hnodup h'
    have hnotMem := (List.nodup_cons.mp (List.nodup_middle.mp hnodup)).1
    rw [List.mem_append, not_or] at hnotMem
    obtain ⟨rfl, -, rfl⟩ := (List.append_cons_inj_of_notMem hnotMem.1 hnotMem.2).mp h'
    exact hholds
  refine ⟨_, keep?_bracket (P := P) (fun l a r h => ?_) [], fun l a r h => ?_⟩
  · have hshows : (scope.position among).Shows doc _ _ _ := hexact ▸ Position.exact_shows_split h
    exact (Qualifier.testAll_of_shows hq hshows).congr (hP h).symm
  · rw [List.mem_map_of_injective element_injective, List.mem_filter, decide_eq_true_iff, hP h]
    simp [h]

/-- A step to children with brackets keeps an element if and only if terms hold of the element on
its own, whatever its number is there. -/
def KeepsIff (doc : Document) (e : Address) (brackets : List (List Expr)) (terms : List Expr) :
    Prop :=
  ∃ kept, (XPath.Step.mk .child .any brackets).tree.select? doc (Document.parent e) = some kept ∧
    ∀ position size, ∃ value,
      (Tree.chain .and (Expr.trees terms)).eval? doc ⟨.element e, position, size⟩ = some value ∧
        (.element e ∈ kept ↔ value.toBool = true)

/-- If the brackets before leave the siblings that pass a test, then the number of an element is the
one that counts the siblings that pass this test. -/
theorem keepsIff_of_left (he : doc.Has e) (hq : q.among? = some among) {exact counted : Scope}
    (hexact : exact.position among = .exact) {test : NodeTest}
    (hcounted : counted.position among = .counted test) (htest : test.accepts doc e)
    {brackets : List (List Expr)} (hne : ∀ terms ∈ brackets, terms ≠ [])
    (hleft : Tree.keep? doc ((doc.siblings e).map .element) (bracketTrees brackets) =
      Tree.keep? doc (((doc.siblings e).filter (test.accepts doc)).map .element)
        (bracketTrees [q.terms exact])) :
    KeepsIff doc e brackets (q.terms counted) := by
  have hnodup := (Document.siblings_nodup he).filter (test.accepts doc)
  have hsplit : (doc.siblings e).filter (test.accepts doc) =
      (Document.before e).filter (test.accepts doc) ++
        e :: (doc.after e).filter (test.accepts doc) := by
    rw [Document.siblings, List.filter_append, List.filter_cons_of_pos htest]
  obtain ⟨kept, hkept, hmem⟩ := keep?_exact hq hexact hnodup
  have hbrackets : bracketTrees brackets =
      brackets.map fun terms => .chain .and (Expr.trees terms) := by
    rw [bracketTrees, List.filter_eq_self.mpr]
    intro terms hterms
    simpa using hne terms hterms
  refine ⟨kept, ?_, fun position size => ?_⟩
  · rw [← hkept, ← hleft, hbrackets]
    exact select?_any (Document.axis?_parent he) (by decide) _
  · have hshows : (counted.position among).Shows doc ⟨.element e, position, size⟩ _ _ :=
      hcounted ▸ Position.counted_shows rfl test
    obtain ⟨value, heval, -, hvalue⟩ :=
      (Qualifier.testAll_of_shows hq hshows).chain (Qualifier.terms_ne_nil hq)
    exact ⟨value, heval, (hmem _ _ _ hsplit).trans hvalue.symm⟩

/-- The bracket for a name leaves the siblings that have it. -/
theorem keep?_named (t : String) (addresses : List Address) (others : List (List Expr)) :
    Tree.keep? doc (addresses.map .element)
        (bracketTrees (ElementTest.terms (some (.named t)) :: others)) =
      Tree.keep? doc ((addresses.filter ((NodeTest.named t).accepts doc)).map .element)
        (bracketTrees others) := by
  have haccepts : (fun a => decide (ElementTest.Matches doc a (some (.named t)))) =
      (NodeTest.named t).accepts doc := by
    funext a
    rw [Bool.eq_iff_iff]
    simp [ElementTest.Matches, ElementTest.name?, NodeTest.accepts]
  rw [keep?_bracket (fun l a r _ => ElementTest.terms_testAll rfl (some (.named t))), haccepts]

end Brackets

/-- A test of a position by the number of a node, in the first bracket of a step to children, is
the test that counts all siblings; in the bracket after the one for the name of the element, it is
the test that counts the siblings of this name. The texts of the tests read as what is evaluated. -/
theorem Qualifier.exact_agrees_counted {doc : Document} {e : Address} (he : doc.Has e)
    {q : Qualifier} {among : Among} (hq : q.among? = some among) {exact : Scope}
    (hexact : exact.position among = .exact) :
    (∀ counted : Scope, counted.position among = .counted .any →
      KeepsIff doc e [q.terms exact] (q.terms counted)) ∧
    (∀ (counted : Scope) (t : String), counted.position among = .counted (.named t) →
      doc.name? e = some t →
      KeepsIff doc e [ElementTest.terms (some (.named t)), q.terms exact] (q.terms counted)) ∧
    ∀ scope : Scope, (scope.position among).WellFormed →
      Tree.ofText? (renderTerms (q.terms scope)) =
        some (.chain .and (Expr.trees (q.terms scope))) := by
  have hne : q.terms exact ≠ [] := terms_ne_nil hq
  refine ⟨fun counted hcounted => ?_, fun counted t hcounted hname => ?_, fun scope hscope => ?_⟩
  · have hall : (doc.siblings e).filter (NodeTest.any.accepts doc) = doc.siblings e :=
      List.filter_eq_self.mpr fun _ _ => rfl
    exact keepsIff_of_left he hq hexact hcounted rfl (by simpa using hne) (by rw [hall])
  · have haccepts : (NodeTest.named t).accepts doc e := by simp [NodeTest.accepts, hname]
    have hname : ElementTest.terms (some (.named t)) ≠ [] := List.cons_ne_nil _ _
    exact keepsIff_of_left he hq hexact hcounted haccepts (by simp [hne, hname])
      (keep?_named t _ _)
  · exact ofText?_renderTerms (termsWellFormed_of_among hq hscope)

/-- The last of three siblings is the third of them and the second of its name. -/
theorem Qualifier.exact_agrees_counted_last :
    let doc : Document := ⟨.mk "ul" ∅ [.mk "li" ∅ [], .mk "p" ∅ [], .mk "li" ∅ []]⟩
    let q : Qualifier := .nth .even .sameType
    doc.Has [2] ∧ doc.name? [2] = some "li" ∧
      KeepsIff doc [2] [q.terms ⟨.exact, .exact, none⟩] (q.terms (.counted none)) ∧
      KeepsIff doc [2] [ElementTest.terms (some (.named "li")),
        q.terms ⟨.counted .any, .exact, some "li"⟩] (q.terms (.counted (some "li"))) := by
  intro doc q
  have hhas : doc.Has [2] := rfl
  have hname : doc.name? [2] = some "li" := rfl
  have hq : q.among? = some .sameType := rfl
  have hall : Scope.position ⟨.exact, .exact, none⟩ .sameType = .exact := rfl
  have hsame : Scope.position ⟨.counted .any, .exact, some "li"⟩ .sameType = .exact := rfl
  exact ⟨hhas, hname, (exact_agrees_counted hhas hq hall).1 (.counted none) rfl,
    (exact_agrees_counted hhas hq hsame).2.1 (.counted (some "li")) "li" rfl hname⟩

end SelectorPath
