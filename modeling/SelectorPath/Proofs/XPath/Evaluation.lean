import SelectorPath.Proofs.XPath.Semantics
import SelectorPath.Proofs.XPath.Tree

/-!
How expressions are evaluated: conjunctions of terms that test something (`Tests`, `TestAll`),
predicates that keep the nodes which pass a test, and steps that lead from elements to
elements (`Leads`).
-/

namespace SelectorPath.XPath

open Text Syntax

/-! ## Terms -/

def Value.isNumber : Value → Bool
  | .number _ => true
  | _ => false

theorem element_injective : Function.Injective Node.element := fun _ _ h => Node.element.inj h

section Terms

variable {doc : Document} {context : Context}

/-- A tree has a value other than a number, which is true if and only if `P` holds. -/
def Tests (doc : Document) (context : Context) (tree : Tree) (P : Prop) : Prop :=
  ∃ v, tree.eval? doc context = some v ∧ v.isNumber = false ∧ (v.toBool ↔ P)

/-- Terms that all test something, all of which hold if and only if `P` does. -/
def TestAll (doc : Document) (context : Context) : List Expr → Prop → Prop
  | [], P => P
  | e :: rest, P => ∃ Q R, Tests doc context e.tree Q ∧ TestAll doc context rest R ∧ (Q ∧ R ↔ P)

theorem Tests.congr {tree : Tree} {P Q : Prop} (h : Tests doc context tree P) (hPQ : P ↔ Q) :
    Tests doc context tree Q := by
  obtain ⟨v, hv, hnumber, hiff⟩ := h
  exact ⟨v, hv, hnumber, hiff.trans hPQ⟩

theorem Tests.of_boolean {tree : Tree} {b : Bool}
    (h : tree.eval? doc context = some (.boolean b)) : Tests doc context tree b :=
  ⟨.boolean b, h, rfl, Iff.rfl⟩

theorem Tests.holdsAt {tree : Tree} {P : Prop} [Decidable P] (h : Tests doc context tree P)
    (position : Nat) :
    (tree.eval? doc context).map (Value.holdsAt position) = some (decide P) := by
  obtain ⟨v, hv, hnumber, hiff⟩ := h
  have hholds : v.holdsAt position = v.toBool := by
    cases v with
    | number n => simp [Value.isNumber] at hnumber
    | nodes | text | boolean => rfl
  rw [hv, Option.map_some, hholds]
  exact congrArg some (Bool.eq_iff_iff.mpr (hiff.trans decide_eq_true_iff.symm))

/-- The value of an operation is that of the operator on the values of its sides. -/
theorem eval?_operation {op : Op} {t u : Tree} {v w : Value} (ht : t.eval? doc context = some v)
    (hu : u.eval? doc context = some w) :
    (Tree.binary op t u).eval? doc context = op.value? doc v w := by
  have hopen : (Tree.binary op t u).eval? doc context = (t.eval? doc context).bind fun v =>
      (u.eval? doc context).bind fun w => op.value? doc v w := rfl
  rw [hopen, ht, hu]
  rfl

theorem evalAll?_cons {t : Tree} {rest : List Tree} {v : Value} {values : List Value}
    (ht : t.eval? doc context = some v) (hrest : Tree.evalAll? doc context rest = some values) :
    Tree.evalAll? doc context (t :: rest) = some (v :: values) := by
  have hopen : Tree.evalAll? doc context (t :: rest) = (t.eval? doc context).bind fun v =>
      (Tree.evalAll? doc context rest).bind fun values => some (v :: values) := rfl
  rw [hopen, ht, hrest]
  rfl

/-- The value of a call is that of the function on the values of its arguments. -/
theorem eval?_function {f : String} {arguments : List Tree} {values : List Value}
    (h : Tree.evalAll? doc context arguments = some values) :
    (Tree.call f arguments).eval? doc context = call? doc context f values := by
  have hopen : (Tree.call f arguments).eval? doc context =
      (Tree.evalAll? doc context arguments).bind fun values => call? doc context f values := rfl
  rw [hopen, h]
  rfl

theorem Tests.and {t u : Tree} {P Q : Prop} (ht : Tests doc context t P)
    (hu : Tests doc context u Q) : Tests doc context (.binary .and t u) (P ∧ Q) := by
  obtain ⟨v, hv, -, hP⟩ := ht
  obtain ⟨w, hw, -, hQ⟩ := hu
  have heval : (Tree.binary .and t u).eval? doc context =
      some (.boolean (v.toBool && w.toBool)) := eval?_operation hv hw
  exact (Tests.of_boolean heval).congr (by rw [Bool.and_eq_true, hP, hQ])

theorem Tests.or {t u : Tree} {P Q : Prop} (ht : Tests doc context t P)
    (hu : Tests doc context u Q) : Tests doc context (.binary .or t u) (P ∨ Q) := by
  obtain ⟨v, hv, -, hP⟩ := ht
  obtain ⟨w, hw, -, hQ⟩ := hu
  have heval : (Tree.binary .or t u).eval? doc context =
      some (.boolean (v.toBool || w.toBool)) := eval?_operation hv hw
  exact (Tests.of_boolean heval).congr (by rw [Bool.or_eq_true, hP, hQ])

theorem Tests.not {t : Tree} {P : Prop} (h : Tests doc context t P) :
    Tests doc context (.call "not" [t]) (¬P) := by
  obtain ⟨v, hv, -, hP⟩ := h
  have harguments : Tree.evalAll? doc context [t] = some [v] := evalAll?_cons hv rfl
  have heval : (Tree.call "not" [t]).eval? doc context = some (.boolean !v.toBool) :=
    eval?_function harguments
  exact (Tests.of_boolean heval).congr (by rw [Bool.not_eq_true', ← hP, Bool.not_eq_true])

namespace TestAll

theorem congr {terms : List Expr} {P Q : Prop} (h : TestAll doc context terms P)
    (hPQ : P ↔ Q) : TestAll doc context terms Q := by
  cases terms with
  | nil => exact hPQ.mp h
  | cons e rest =>
    obtain ⟨R, S, he, hrest, hiff⟩ := h
    exact ⟨R, S, he, hrest, hiff.trans hPQ⟩

theorem single {e : Expr} {P : Prop} (h : Tests doc context e.tree P) :
    TestAll doc context [e] P :=
  ⟨P, True, h, trivial, by simp⟩

theorem append {terms others : List Expr} {P Q : Prop} (h : TestAll doc context terms P)
    (hothers : TestAll doc context others Q) : TestAll doc context (terms ++ others) (P ∧ Q) := by
  induction terms generalizing P with
  | nil => exact hothers.congr (and_iff_right h).symm
  | cons e rest ih =>
    obtain ⟨R, S, he, hrest, hiff⟩ := h
    exact ⟨R, S ∧ Q, he, ih hrest, by rw [← hiff, and_assoc]⟩

/-- Terms are tested one after the other. -/
theorem foldl {terms : List Expr} {t : Tree} {P Q : Prop} (ht : Tests doc context t P)
    (h : TestAll doc context terms Q) :
    Tests doc context ((terms.map Expr.tree).foldl (.binary .and) t) (P ∧ Q) := by
  induction terms generalizing t P Q with
  | nil => exact ht.congr (and_iff_left h).symm
  | cons e rest ih =>
    obtain ⟨R, S, he, hrest, hiff⟩ := h
    exact (ih (ht.and he) hrest).congr (by rw [and_assoc, hiff])

/-- The conjunction of terms tests that all hold. -/
theorem chain {terms : List Expr} {P : Prop} (h : TestAll doc context terms P)
    (hne : terms ≠ []) : Tests doc context (.chain .and (Expr.trees terms)) P := by
  rw [Expr.trees_eq_map]
  cases terms with
  | nil => exact absurd rfl hne
  | cons e rest =>
    obtain ⟨R, S, he, hrest, hiff⟩ := h
    exact (foldl he hrest).congr hiff

end TestAll

/-- The nodes on an axis that pass a test. -/
theorem eval?_nodes {axis : AxisName} {nodes : List Node}
    (h : doc.axis? axis context.node = some nodes) (hnodup : nodes.Nodup) (test : Test) :
    (Tree.nodes axis test).eval? doc context =
      some (.nodes (nodes.filter (doc.passes axis test))) := by
  simp [Tree.nodes, Tree.eval?, TreeStep.follow?, TreeStep.select?, Tree.keep?, h,
    (hnodup.filter _).dedup]

theorem eval?_number (n : Int) : (Expr.number n).tree.eval? doc context = some (.number n) := by
  rw [Expr.tree, Tree.ofInt]
  split
  · simp only [Tree.eval?, Option.bind_eq_bind, Option.bind_some, Op.value?]
    congr 2
    omega
  · simp only [Tree.eval?]
    congr 2
    omega

theorem eval?_binary {op : Operator} {e f : Expr} {v w u : Value}
    (he : e.tree.eval? doc context = some v) (hf : f.tree.eval? doc context = some w)
    (hu : op.toOp.value? doc v w = some u) :
    (Expr.binary op e f).tree.eval? doc context = some u :=
  (eval?_operation he hf).trans hu

theorem eval?_same {e f : Expr} {v w : Value} {b : Bool}
    (he : e.tree.eval? doc context = some v) (hf : f.tree.eval? doc context = some w)
    (hb : v.equals? doc w = some b) :
    (Expr.same e f).tree.eval? doc context = some (.boolean b) := by
  have hvalue : (Op.equal).value? doc v w = some (.boolean b) := by
    rw [Op.value?, hb]
    rfl
  exact (eval?_operation he hf).trans hvalue

theorem eval?_call_one {f : Function} {e : Expr} {v u : Value}
    (he : e.tree.eval? doc context = some v) (hu : call? doc context f.name [v] = some u) :
    (Expr.call f [e]).tree.eval? doc context = some u :=
  (eval?_function (evalAll?_cons he rfl)).trans hu

theorem eval?_call_two {f : Function} {e e' : Expr} {v w u : Value}
    (he : e.tree.eval? doc context = some v) (he' : e'.tree.eval? doc context = some w)
    (hu : call? doc context f.name [v, w] = some u) :
    (Expr.call f [e, e']).tree.eval? doc context = some u :=
  (eval?_function (evalAll?_cons he (evalAll?_cons he' rfl))).trans hu

theorem constFalse_tests : Tests doc context (Expr.call .constFalse []).tree False :=
  (Tests.of_boolean (b := false) rfl).congr (by simp)

end Terms

/-! ## Predicates -/

section Predicates

open scoped Classical

variable {doc : Document}

theorem keepWhere_elements {test : Context → Option Bool} {P : Address → Prop}
    {size position : Nat} {addresses : List Address}
    (h : ∀ l a r, addresses = l ++ a :: r →
      test ⟨.element a, l.length + position, size⟩ = some (decide (P a))) :
    keepWhere test size position (addresses.map .element) =
      some ((addresses.filter fun a => decide (P a)).map .element) := by
  induction addresses generalizing position with
  | nil => rfl
  | cons a rest ih =>
    have hfirst := h [] a rest rfl
    have hothers : ∀ l b r, rest = l ++ b :: r →
        test ⟨.element b, l.length + (position + 1), size⟩ = some (decide (P b)) := by
      intro l b r hl
      have hother := h (a :: l) b r (by rw [hl]; rfl)
      rwa [List.length_cons, Nat.add_assoc, Nat.add_comm 1] at hother
    rw [List.length_nil, Nat.zero_add] at hfirst
    simp only [List.map_cons, keepWhere, hfirst, ih hothers, Option.bind_eq_bind,
      Option.bind_some, List.filter_cons]
    split <;> rfl

/-- The predicates of brackets. Those without terms are left out. -/
def bracketTrees (layout : List (List Expr)) : List Tree :=
  (layout.filter fun terms => !terms.isEmpty).map fun terms => .chain .and (Expr.trees terms)

/-- A bracket keeps the elements that pass its terms at their positions. -/
theorem keep?_bracket {P : Address → Prop} {terms : List Expr} {addresses : List Address}
    (h : ∀ l a r, addresses = l ++ a :: r →
      TestAll doc ⟨.element a, l.length + 1, addresses.length⟩ terms (P a))
    (others : List (List Expr)) :
    Tree.keep? doc (addresses.map .element) (bracketTrees (terms :: others)) =
      Tree.keep? doc ((addresses.filter fun a => decide (P a)).map .element)
        (bracketTrees others) := by
  by_cases hterms : terms = []
  · have hall : ∀ a ∈ addresses, decide (P a) := by
      intro a ha
      obtain ⟨l, r, hl⟩ := List.append_of_mem ha
      have hP := h l a r hl
      rw [hterms] at hP
      exact decide_eq_true hP
    rw [List.filter_eq_self.mpr hall, hterms]
    rfl
  · have hcons : bracketTrees (terms :: others) =
        .chain .and (Expr.trees terms) :: bracketTrees others := by
      simp [bracketTrees, hterms]
    have hkept : keepWhere (fun context => ((Tree.chain .and (Expr.trees terms)).eval? doc
        context).map (Value.holdsAt context.position)) addresses.length 1
        (addresses.map .element) = some ((addresses.filter fun a => decide (P a)).map .element) :=
      keepWhere_elements fun l a r hl => ((h l a r hl).chain hterms).holdsAt (l.length + 1)
    rw [hcons, Tree.keep?, List.length_map, hkept]
    rfl

end Predicates

/-! ## Steps -/

section Steps

variable {doc : Document}

/-- Steps lead from elements to those that are related to one of them. -/
def Leads (doc : Document) (steps : List TreeStep) (R : Address → Address → Prop) : Prop :=
  ∀ (addresses : List Address) (rest : List TreeStep), (∀ a ∈ addresses, doc.Has a) →
    ∃ found : List Address, TreeStep.follow? doc (addresses.map .element) (steps ++ rest) =
        TreeStep.follow? doc (found.map .element) rest ∧
      ∀ b, b ∈ found ↔ ∃ a ∈ addresses, R a b

theorem Leads.nil : Leads doc [] (· = ·) :=
  fun addresses _ _ => ⟨addresses, rfl, by simp⟩

theorem Leads.congr {steps : List TreeStep} {R S : Address → Address → Prop}
    (h : Leads doc steps R) (hRS : ∀ a b, R a b ↔ S a b) : Leads doc steps S := by
  intro addresses rest hhas
  obtain ⟨found, hfollow, hiff⟩ := h addresses rest hhas
  refine ⟨found, hfollow, fun b => (hiff b).trans ?_⟩
  simp only [hRS]

theorem Leads.append {steps others : List TreeStep} {R S : Address → Address → Prop}
    (h : Leads doc steps R) (hothers : Leads doc others S) (hR : ∀ a b, R a b → doc.Has b) :
    Leads doc (steps ++ others) fun a c => ∃ b, R a b ∧ S b c := by
  intro addresses rest hhas
  obtain ⟨middle, hmiddle, hiff⟩ := h addresses (others ++ rest) hhas
  have hmiddleHas : ∀ b ∈ middle, doc.Has b := by
    intro b hb
    obtain ⟨a, -, hab⟩ := (hiff b).mp hb
    exact hR a b hab
  obtain ⟨found, hfound, hfoundIff⟩ := hothers middle rest hmiddleHas
  refine ⟨found, by rw [List.append_assoc, hmiddle, hfound], fun c => ?_⟩
  rw [hfoundIff]
  constructor
  · rintro ⟨b, hb, hbc⟩
    obtain ⟨a, ha, hab⟩ := (hiff b).mp hb
    exact ⟨a, ha, b, hab, hbc⟩
  · rintro ⟨a, ha, b, hab, hbc⟩
    exact ⟨b, (hiff b).mpr ⟨a, ha, hab⟩, hbc⟩

theorem mapM_map_eq_some {α β γ : Type} {f : β → Option γ} {e : α → β} {g : α → γ} {l : List α}
    (h : ∀ a ∈ l, f (e a) = some (g a)) : (l.map e).mapM f = some (l.map g) := by
  induction l with
  | nil => rfl
  | cons a l ih =>
    obtain ⟨ha, hl⟩ := List.forall_mem_cons.mp h
    simp [List.mapM_cons, ha, ih hl]

/-- A step leads to what it selects from single elements. -/
theorem Leads.single {step : TreeStep} {R : Address → Address → Prop}
    (h : ∀ a, doc.Has a → ∃ found : List Address,
      step.select? doc (.element a) = some (found.map .element) ∧ ∀ b, b ∈ found ↔ R a b) :
    Leads doc [step] R := by
  choose! found hselect hiff using h
  intro addresses rest hhas
  have hmap : (addresses.map Node.element).mapM (fun node => step.select? doc node) =
      some (addresses.map fun a => (found a).map .element) :=
    mapM_map_eq_some fun a ha => hselect a (hhas a ha)
  have hflatten : (addresses.map fun a => (found a).map Node.element).flatten =
      (addresses.flatMap found).map .element := by
    rw [List.flatMap_def, List.map_flatten, List.map_map]
    rfl
  refine ⟨(addresses.flatMap found).dedup, ?_, fun b => ?_⟩
  · rw [List.singleton_append, TreeStep.follow?, hmap]
    simp only [Option.bind_eq_bind, Option.bind_some, hflatten,
      List.dedup_map_of_injective element_injective]
  · rw [List.mem_dedup, List.mem_flatMap]
    exact exists_congr fun a => and_congr_right fun ha => hiff a (hhas a ha) b

end Steps

/-! ## Paths -/

section Paths

variable {doc : Document} {context : Context}

/-- The value of a tree is a set of elements. -/
def Finds (doc : Document) (context : Context) (tree : Tree) (P : Address → Prop) : Prop :=
  ∃ found : List Address, tree.eval? doc context = some (.nodes (found.map .element)) ∧
    ∀ a, a ∈ found ↔ P a

theorem Finds.congr {tree : Tree} {P Q : Address → Prop} (h : Finds doc context tree P)
    (hPQ : ∀ a, P a ↔ Q a) : Finds doc context tree Q := by
  obtain ⟨found, heval, hiff⟩ := h
  exact ⟨found, heval, fun a => (hiff a).trans (hPQ a)⟩

theorem Finds.union {t u : Tree} {P Q : Address → Prop} (ht : Finds doc context t P)
    (hu : Finds doc context u Q) : Finds doc context (.binary .union t u) fun a => P a ∨ Q a := by
  obtain ⟨found, heval, hP⟩ := ht
  obtain ⟨others, hothers, hQ⟩ := hu
  refine ⟨(found ++ others).dedup, ?_, fun a => ?_⟩
  · rw [eval?_operation heval hothers, Op.value?, ← List.map_append,
      List.dedup_map_of_injective element_injective]
  · rw [List.mem_dedup, List.mem_append, hP, hQ]

theorem Finds.foldl {α : Type} {tree : α → Tree} {P : α → Address → Prop} {items : List α}
    {first : Tree} {Q : Address → Prop} (hfirst : Finds doc context first Q)
    (h : ∀ item ∈ items, Finds doc context (tree item) (P item)) :
    Finds doc context ((items.map tree).foldl (.binary .union) first)
      fun a => Q a ∨ ∃ item ∈ items, P item a := by
  induction items generalizing first Q with
  | nil => simpa using hfirst
  | cons item rest ih =>
    obtain ⟨hitem, hrest⟩ := List.forall_mem_cons.mp h
    refine (ih (hfirst.union hitem) hrest).congr fun a => ?_
    rw [List.exists_mem_cons_iff, or_assoc]

/-- A union finds what one of its members finds. -/
theorem Finds.chain {α : Type} {tree : α → Tree} {P : α → Address → Prop} {items : List α}
    (hne : items ≠ []) (h : ∀ item ∈ items, Finds doc context (tree item) (P item)) :
    Finds doc context (.chain .union (items.map tree)) fun a => ∃ item ∈ items, P item a := by
  cases items with
  | nil => exact absurd rfl hne
  | cons item rest =>
    obtain ⟨hitem, hrest⟩ := List.forall_mem_cons.mp h
    refine (Finds.foldl hitem hrest).congr fun a => ?_
    rw [List.exists_mem_cons_iff]

/-- A path whose first steps lead from its start to elements. -/
theorem Leads.finds {steps others : List TreeStep} {R : Address → Address → Prop}
    (h : Leads doc steps R) {fromRoot : Bool} {addresses : List Address}
    (hstart : TreeStep.follow? doc [if fromRoot then .root else context.node] (others ++ steps) =
      TreeStep.follow? doc (addresses.map .element) steps)
    (hhas : ∀ a ∈ addresses, doc.Has a) :
    Finds doc context (.path fromRoot (others ++ steps)) fun b => ∃ a ∈ addresses, R a b := by
  obtain ⟨found, hfollow, hiff⟩ := h addresses [] hhas
  rw [List.append_nil] at hfollow
  refine ⟨found, ?_, hiff⟩
  rw [Tree.eval?, hstart, hfollow]
  rfl

end Paths

end SelectorPath.XPath
