import SelectorPath.Proofs.Selector.Grammar

/-!
What the readers of selectors take is in the grammar. Each reader is followed from the place
where it starts to the place after it, so these facts hold for either policy and wherever a
selector stands in a text.
-/

namespace SelectorPath

open Text Grammar Lexicon

/-! ## Loops -/

namespace Cursor

variable {α : Type} {P : List Char → List α → Prop}

/-- What a loop reads, put together from what its items read. -/
theorem readWhile_sound {item : Cursor → Except SelectorError (Option (α × Cursor))}
    (hnil : P [] [])
    (hcons : ∀ c a d t rest, item c = .ok (some (a, d)) → P t rest →
      ∃ s, c.Takes s d ∧ P (s ++ t) (a :: rest))
    {c last : Cursor} {items : List (Nat × α)} (h : c.readWhile item = .ok (items, last)) :
    ∃ text, c.Takes text last ∧ P text (items.map Prod.snd) := by
  induction hn : c.rest.length using Nat.strongRecOn generalizing c items with
  | ind n ih =>
  unfold readWhile at h
  split at h
  · simp at h
  · simp only [Except.ok.injEq, Prod.mk.injEq] at h
    obtain ⟨rfl, rfl⟩ := h
    exact ⟨[], .refl c, hnil⟩
  · next a d hitem =>
    split at h
    · next hlt =>
      split at h
      · simp at h
      · next rest last' hrest =>
        simp only [Except.ok.injEq, Prod.mk.injEq] at h
        obtain ⟨rfl, rfl⟩ := h
        obtain ⟨t, ht, hP⟩ := ih _ (hn ▸ hlt) hrest rfl
        obtain ⟨s, hs, hP⟩ := hcons c a d t _ hitem hP
        exact ⟨s ++ t, hs.trans ht, hP⟩
    · simp only [Except.ok.injEq, Prod.mk.injEq] at h
      obtain ⟨rfl, rfl⟩ := h
      exact ⟨[], .refl c, hnil⟩

/-- A loop with separators, from its last item to its first. -/
theorem readSeparated_induction {separator : Cursor → Option Cursor} {item : Reader α}
    {Q : Cursor → List α → Cursor → Prop} (hlast : ∀ c a d, item c = .ok (a, d) → Q c [a] d)
    (hcons : ∀ c a d e rest last, item c = .ok (a, d) → separator d = some e → Q e rest last →
      Q c (a :: rest) last)
    {c last : Cursor} {items : List α} (h : c.readSeparated separator item = .ok (items, last)) :
    Q c items last := by
  fun_induction c.readSeparated separator item generalizing items last with
  | case1 c e hitem => cases h
  | case2 c a after hitem hnone =>
    cases h
    exact hlast c a after hitem
  | case3 c a after hitem next hnext hlt e hrest ih => cases h
  | case4 c a after hitem next hnext hlt rest last hrest ih =>
    cases h
    exact hcons c a after next rest last hitem hnext (ih hrest)
  | case5 c a after hitem next hnext hlt =>
    cases h
    exact hlast c a after hitem

/-- What a loop with separators reads. -/
theorem readSeparated_sound {separator : Cursor → Option Cursor} {item : Reader α}
    (hlast : ∀ c a d, item c = .ok (a, d) → ∃ s, c.Takes s d ∧ P s [a])
    (hcons : ∀ c a d e t rest, item c = .ok (a, d) → separator d = some e → P t rest →
      ∃ s, c.Takes s e ∧ P (s ++ t) (a :: rest))
    {c last : Cursor} {items : List α} (h : c.readSeparated separator item = .ok (items, last)) :
    ∃ text, c.Takes text last ∧ P text items := by
  refine readSeparated_induction (Q := fun c items last => ∃ text, c.Takes text last ∧ P text items)
    hlast ?_ h
  rintro c a d e rest last hitem hseparator ⟨t, ht, hrest⟩
  obtain ⟨s, hs, hall⟩ := hcons c a d e t rest hitem hseparator hrest
  exact ⟨s ++ t, hs.trans ht, hall⟩

end Cursor

/-! ## Attribute tests -/

namespace AttributeTest

theorem readValue_sound {c after : Cursor} {value : String}
    (h : readValue standard c = .ok (value, after)) :
    ∃ text, c.Takes text after ∧ ValueText text value := by
  unfold readValue at h
  split at h
  · next s d hs =>
    simp only [Except.ok.injEq, Prod.mk.injEq] at h
    obtain ⟨rfl, rfl⟩ := h
    obtain ⟨hs, ht, -⟩ := token_iff.mp hs
    rcases hs with hs | hs
    · exact ⟨s, ht, .quoted (.inl rfl) hs⟩
    · exact ⟨s, ht, .quoted (.inr rfl) hs⟩
  · split at h
    · next s d hs =>
      simp only [Except.ok.injEq, Prod.mk.injEq] at h
      obtain ⟨rfl, rfl⟩ := h
      obtain ⟨hs, ht, -⟩ := token_iff.mp hs
      exact ⟨s, ht, .identifier hs⟩
    · simp at h

theorem read_sound {c after : Cursor} {test : AttributeTest}
    (h : read standard c = .ok (test, after)) :
    ∃ text, c.Takes text after ∧ AttributeText text test := by
  obtain ⟨c1, h1, h⟩ := bind_eq_ok_iff.mp h
  obtain ⟨_, h1⟩ := expect_eq_ok_iff.mp h1
  obtain ⟨rfl, ht1, -⟩ := token_iff.mp h1
  obtain ⟨v, hv, htv, -⟩ := skip_spaces_iff.mp (rfl : standard.skip .spaces c1 = _)
  dsimp only at h
  split at h
  · simp at h
  · next name c2 hname =>
    obtain ⟨hname, ht2, -⟩ := token_iff.mp hname
    obtain ⟨w, hw, htw, -⟩ := skip_spaces_iff.mp (rfl : standard.skip .spaces c2 = _)
    have hstart := ((ht1.trans htv).trans ht2).trans htw
    unfold readComparison at h
    split at h
    · next c3 hclose =>
      obtain ⟨rfl, ht3, -⟩ := token_iff.mp hclose
      simp only [Except.ok.injEq, Prod.mk.injEq] at h
      obtain ⟨rfl, rfl⟩ := h
      refine ⟨_, hstart.trans ht3, ?_⟩
      simpa using AttributeText.present hv hname hw
    · split at h
      · simp at h
      · next sign c3 hsign =>
        split at h
        · simp at h
        · next operator hoperator =>
          obtain ⟨hsign, ht3, -⟩ := token_iff.mp hsign
          obtain ⟨⟨value, c4⟩, hvalue, h⟩ := bind_eq_ok_iff.mp h
          obtain ⟨c5, h5, h⟩ := bind_eq_ok_iff.mp h
          simp only [pure, Except.pure, Except.ok.injEq, Prod.mk.injEq] at h
          obtain ⟨rfl, rfl⟩ := h
          obtain ⟨x, hx, htx, -⟩ := skip_spaces_iff.mp (rfl : standard.skip .spaces c3 = _)
          obtain ⟨y, hy, hty, -⟩ := skip_spaces_iff.mp (rfl : standard.skip .spaces c4 = _)
          obtain ⟨s, hts, hs⟩ := readValue_sound hvalue
          obtain ⟨_, h5⟩ := expect_eq_ok_iff.mp h5
          obtain ⟨rfl, ht5, -⟩ := token_iff.mp h5
          refine ⟨_, ((((hstart.trans ht3).trans htx).trans hts).trans hty).trans ht5, ?_⟩
          simpa using AttributeText.compare hv hname hw hoperator hx hs hy

end AttributeTest

/-! ## Qualifiers -/

namespace PseudoClass

theorem mem_all (pseudoClass : PseudoClass) : pseudoClass ∈ all := by
  cases pseudoClass with
  | place p among => cases p <;> cases among <;> decide
  | nth among => cases among <;> decide
  | negation => decide

theorem name_injective {p q : PseudoClass} (h : p.name = q.name) : p = q := by
  have hall : ∀ p ∈ all, ∀ q ∈ all, p.name = q.name → p = q := by decide
  exact hall p (mem_all p) q (mem_all q) h

theorem ofName?_iff {name : String} {pseudoClass : PseudoClass} :
    ofName? name = some pseudoClass ↔ pseudoClass.name = name := by
  constructor
  · intro h
    simpa using List.find?_some h
  · rintro rfl
    cases h : ofName? pseudoClass.name with
    | none =>
      have hnone := List.find?_eq_none.mp h pseudoClass (mem_all pseudoClass)
      simp at hnone
    | some found =>
      have hfound : found.name = pseudoClass.name := by simpa using List.find?_some h
      rw [name_injective hfound]

end PseudoClass

namespace Qualifier

/-- A reader for the arguments of negations, if one is left, takes compounds of one level
less, in which the name holds. -/
def ArgumentSound (levels : Nat) (name : Option String) (argument : Option (Reader Compound)) :
    Prop :=
  ∀ read, argument = some read → ∃ l, levels = l + 1 ∧
    ∀ c compound after, read c = .ok (compound, after) →
      ∃ text, c.Takes text after ∧ CompoundText text compound ∧ compound.depth ≤ l ∧
        compound.Scoped name

/-- Qualifiers within some levels, whose negations are scoped. -/
structure Within (levels : Nat) (name : Option String) (text : List Char)
    (qualifiers : List Qualifier) : Prop where
  text : QualifiersText text qualifiers
  depth : depthAll qualifiers ≤ levels
  scope : ∀ q ∈ qualifiers, q.isSameType = false → q.Scoped name

/-- A qualifier without an argument nests nothing. -/
theorem plainText_shallow {s : List Char} {q : Qualifier} (h : PlainText s q) :
    q.depth = 0 ∧ ∀ name, q.isSameType = false → q.Scoped name := by
  cases h with
  | className | id | attributeTest => exact ⟨rfl, fun _ h => by simp [Scoped, h]⟩
  | place | nth => exact ⟨rfl, fun _ h => by simp [Scoped, h]⟩

theorem Within.plain {levels : Nat} {name : Option String} {s t : List Char} {q : Qualifier}
    {rest : List Qualifier} (hq : PlainText s q) (h : Within levels name t rest) :
    Within levels name (s ++ t) (q :: rest) where
  text := .plain hq h.text
  depth := by simpa [depthAll, (plainText_shallow hq).1] using h.depth
  scope := List.forall_mem_cons.mpr ⟨(plainText_shallow hq).2 name, h.scope⟩

theorem Within.negation {levels : Nat} {name : Option String} {s u w t : List Char}
    {compound : Compound} {rest : List Qualifier} (hs : PseudoClassText s .negation)
    (hu : CompoundText u compound) (hd : compound.depth ≤ levels) (hc : compound.Scoped name)
    (hw : SpaceText w) (h : Within (levels + 1) name t rest) :
    Within (levels + 1) name (':' :: (s ++ ['('] ++ u ++ w ++ [')']) ++ t)
      (.negation compound.element compound.qualifiers :: rest) := by
  obtain ⟨v, e, t', rfl, hv, he, ht, hn⟩ := hu
  refine ⟨.negation hs hv he ht hn hw h.text, ?_, ?_⟩
  · have hd : depthAll compound.qualifiers ≤ levels := hd
    have hrest := h.depth
    simp only [depthAll, Qualifier.depth]
    omega
  · exact List.forall_mem_cons.mpr ⟨fun _ => hc, h.scope⟩

theorem readNegation_sound {argument : Reader Compound} {c after : Cursor} {q : Qualifier}
    (h : readNegation standard argument c = .ok (q, after)) :
    ∃ c1 c2 c3 w compound, c.Takes ['('] c1 ∧ argument c1 = .ok (compound, c2) ∧
      c2.Takes w c3 ∧ SpaceText w ∧ c3.Takes [')'] after ∧
      q = .negation compound.element compound.qualifiers := by
  obtain ⟨c1, h1, h⟩ := bind_eq_ok_iff.mp h
  obtain ⟨⟨compound, c2⟩, h2, h⟩ := bind_eq_ok_iff.mp h
  obtain ⟨c4, h4, h⟩ := bind_eq_ok_iff.mp h
  simp only [pure, Except.pure, Except.ok.injEq, Prod.mk.injEq] at h
  obtain ⟨rfl, rfl⟩ := h
  obtain ⟨_, h1⟩ := expect_eq_ok_iff.mp h1
  obtain ⟨rfl, ht1, -⟩ := token_iff.mp h1
  obtain ⟨_, h4⟩ := expect_eq_ok_iff.mp h4
  obtain ⟨rfl, ht4, -⟩ := token_iff.mp h4
  obtain ⟨w, hw, htw, -⟩ := skip_spaces_iff.mp (rfl : standard.skip .spaces c2 = _)
  exact ⟨c1, c2, _, w, compound, ht1, h2, htw, hw, ht4, rfl⟩

theorem pseudoClassText_iff {s : List Char} {pseudoClass : PseudoClass} :
    PseudoClass.ofName? (String.ofList (s.map Char.toLower)) = some pseudoClass ↔
      PseudoClassText s pseudoClass := by
  rw [PseudoClass.ofName?_iff, PseudoClassText, ← String.toList_inj, String.toList_ofList, eq_comm]

theorem readPseudoClass_sound {levels : Nat} {name : Option String}
    {argument : Option (Reader Compound)} (harg : ArgumentSound levels name argument)
    {c d : Cursor} {q : Qualifier} {t : List Char} {rest : List Qualifier}
    (h : readPseudoClass standard argument c = .ok (q, d)) (hrest : Within levels name t rest) :
    ∃ s, c.Takes s d ∧ Within levels name (s ++ t) (q :: rest) := by
  unfold readPseudoClass at h
  split at h
  · simp at h
  · next s c1 hs =>
    obtain ⟨⟨s, rfl, -⟩, ht, -⟩ := token_iff.mp hs
    simp only [List.tail_cons] at h
    split at h
    · simp at h
    · next p among hp =>
      simp only [Except.ok.injEq, Prod.mk.injEq] at h
      obtain ⟨rfl, rfl⟩ := h
      exact ⟨_, ht, .plain (.place (pseudoClassText_iff.mp hp)) hrest⟩
    · next among hp =>
      obtain ⟨⟨formula, c2⟩, hf, h⟩ := bind_eq_ok_iff.mp h
      simp only [pure, Except.pure, Except.ok.injEq, Prod.mk.injEq] at h
      obtain ⟨rfl, rfl⟩ := h
      obtain ⟨u, htu, hu⟩ := Formula.read_sound hf
      exact ⟨_, ht.trans htu, .plain (.nth (pseudoClassText_iff.mp hp) hu) hrest⟩
    · next hp =>
      split at h
      · simp at h
      · next read =>
        obtain ⟨l, rfl, hread⟩ := harg read rfl
        obtain ⟨c1, c2, c3, w, compound, ht1, h2, htw, hw, ht4, rfl⟩ := readNegation_sound h
        obtain ⟨u, htu, hu, hd, hc⟩ := hread _ _ _ h2
        refine ⟨_, (((ht.trans ht1).trans htu).trans htw).trans ht4, ?_⟩
        exact .negation (pseudoClassText_iff.mp hp) hu hd hc hw hrest

/-- One more qualifier in front of others. -/
theorem read?_sound {levels : Nat} {name : Option String} {argument : Option (Reader Compound)}
    (harg : ArgumentSound levels name argument) {c d : Cursor} {q : Qualifier} {t : List Char}
    {rest : List Qualifier} (h : read? standard argument c = .ok (some (q, d)))
    (hrest : Within levels name t rest) :
    ∃ s, c.Takes s d ∧ Within levels name (s ++ t) (q :: rest) := by
  unfold read? at h
  split at h
  · next s d' hs =>
    simp only [Except.ok.injEq, Option.some.injEq, Prod.mk.injEq] at h
    obtain ⟨rfl, rfl⟩ := h
    obtain ⟨⟨s, rfl, hname⟩, ht, -⟩ := token_iff.mp hs
    exact ⟨_, ht, .plain (.className hname) hrest⟩
  · split at h
    · next s d' hs =>
      simp only [Except.ok.injEq, Option.some.injEq, Prod.mk.injEq] at h
      obtain ⟨rfl, rfl⟩ := h
      obtain ⟨⟨s, rfl, hname⟩, ht, -⟩ := token_iff.mp hs
      exact ⟨_, ht, .plain (.id hname) hrest⟩
    · split at h
      · obtain ⟨found, hread, hfound⟩ := map_eq_ok_iff.mp h
        cases hfound
        exact readPseudoClass_sound harg hread hrest
      · split at h
        · obtain ⟨⟨test, after⟩, hread, hfound⟩ := map_eq_ok_iff.mp h
          cases hfound
          obtain ⟨s, ht, hs⟩ := AttributeTest.read_sound hread
          exact ⟨s, ht, .plain (.attributeTest hs) hrest⟩
        · simp at h

theorem allScoped_iff {name : Option String} {qualifiers : List Qualifier} :
    AllScoped name qualifiers ↔ ∀ q ∈ qualifiers, q.Scoped name := by
  induction qualifiers with
  | nil => simp [AllScoped]
  | cons q rest ih => simp [AllScoped, ih]

theorem scoped_of_isSameType {name : Option String} {q : Qualifier} (h : q.isSameType) :
    q.Scoped name ↔ name.isSome := by
  cases q with
  | negation => simp [isSameType, sameType?] at h
  | className | id | attributeTest | place | nth => simp [Scoped, h]

end Qualifier

/-! ## Compounds -/

namespace Compound

theorem readElement_sound {c after : Cursor} {element : Option ElementTest}
    (h : readElement standard c = (element, after)) :
    ∃ text, c.Takes text after ∧ ElementText text element := by
  unfold readElement at h
  split at h
  · next s d hs =>
    obtain ⟨rfl, ht, -⟩ := token_iff.mp hs
    obtain ⟨rfl, rfl⟩ := Prod.mk.inj h
    exact ⟨_, ht, .universal⟩
  · split at h
    · next s d hs =>
      obtain ⟨hs, ht, -⟩ := token_iff.mp hs
      obtain ⟨rfl, rfl⟩ := Prod.mk.inj h
      exact ⟨_, ht, .named hs⟩
    · obtain ⟨rfl, rfl⟩ := Prod.mk.inj h
      exact ⟨[], .refl c, .absent⟩

/-- What the check of a compound lets pass. -/
theorem check_eq_ok_iff {start : Cursor} {element : Option ElementTest} {name : Option String}
    {qualifiers : List (Nat × Qualifier)} {compound : Compound} :
    check start element name qualifiers = .ok compound ↔
      compound = ⟨element, qualifiers.map Prod.snd⟩ ∧ compound.Nonempty ∧
        ∀ q ∈ compound.qualifiers, q.isSameType → name.isSome := by
  have hempty : (⟨element, qualifiers.map Prod.snd⟩ : Compound).Nonempty ↔
      (element.isNone && qualifiers.isEmpty) = false := by
    cases element <;> cases qualifiers <;> simp [Nonempty]
  unfold check
  cases hguard : element.isNone && qualifiers.isEmpty with
  | true =>
    simp only [↓reduceIte, reduceCtorEq, false_iff]
    rintro ⟨rfl, hn, -⟩
    simp [hguard] at hempty
    exact hempty hn
  | false =>
    have hn := hempty.mpr hguard
    simp only [Bool.false_eq_true, ↓reduceIte]
    split
    · next offset pseudoClass hfound =>
      simp only [reduceCtorEq, Option.isSome_none, Bool.false_eq_true, false_iff]
      rintro ⟨rfl, -, hnone⟩
      obtain ⟨⟨offset', q⟩, hmem, hq⟩ := List.exists_of_findSome?_eq_some hfound
      obtain ⟨found, hfound, -⟩ := Option.map_eq_some_iff.mp hq
      exact hnone q (List.mem_map_of_mem hmem) (by simp [Qualifier.isSameType, hfound])
    · next name _ _ hname =>
      simp only [Except.ok.injEq]
      constructor
      · rintro rfl
        refine ⟨rfl, hn, fun q hq htype => ?_⟩
        obtain ⟨⟨offset, q⟩, hmem, rfl⟩ := List.mem_map.mp hq
        obtain ⟨found, hfound⟩ := Option.isSome_iff_exists.mp htype
        cases name with
        | some name => rfl
        | none =>
          cases hfirst : qualifiers.findSome? fun item => item.2.sameType?.map (item.1, ·) with
          | some first => exact (hname first.1 first.2 rfl hfirst).elim
          | none =>
            have := List.findSome?_eq_none_iff.mp hfirst _ hmem
            simp [hfound] at this
      · rintro ⟨rfl, -, -⟩
        rfl

/-- Qualifiers whose negations are scoped are scoped if those of them that test the position
among siblings of the same name are. -/
theorem allScoped_of_within {levels : Nat} {name : Option String} {text : List Char}
    {qualifiers : List Qualifier} (h : Qualifier.Within levels name text qualifiers)
    (hs : ∀ q ∈ qualifiers, q.isSameType → name.isSome) :
    Qualifier.AllScoped name qualifiers := by
  refine Qualifier.allScoped_iff.mpr fun q hq => ?_
  cases htype : q.isSameType with
  | false => exact h.scope q hq htype
  | true => exact (Qualifier.scoped_of_isSameType htype).mpr (hs q hq htype)

theorem readWith_sound {levels : Nat} {argument : Option String → Option (Reader Compound)}
    (harg : ∀ name, Qualifier.ArgumentSound levels name (argument name))
    {enclosing : Option String} {c after : Cursor} {compound : Compound}
    (h : readWith standard argument enclosing c = .ok (compound, after)) :
    ∃ text, c.Takes text after ∧ CompoundText text compound ∧ compound.depth ≤ levels ∧
      compound.Scoped enclosing := by
  obtain ⟨⟨qualifiers, d⟩, hq, h⟩ := bind_eq_ok_iff.mp h
  obtain ⟨compound', hcheck, h⟩ := bind_eq_ok_iff.mp h
  simp only [pure, Except.pure, Except.ok.injEq, Prod.mk.injEq] at h
  obtain ⟨rfl, rfl⟩ := h
  obtain ⟨rfl, hn, hs⟩ := check_eq_ok_iff.mp hcheck
  obtain ⟨v, hv, htv, -⟩ := skip_spaces_iff.mp (rfl : standard.skip .spaces c = _)
  obtain ⟨e, hte, he⟩ := readElement_sound (rfl : readElement standard _ = (_, _))
  obtain ⟨t, htt, hwithin⟩ := Cursor.readWhile_sound
    (P := Qualifier.Within levels _) ⟨.nil, Nat.zero_le _, by simp⟩
    (fun _ _ _ _ _ hitem hrest => Qualifier.read?_sound (harg _) hitem hrest) hq
  refine ⟨v ++ e ++ t, (htv.trans hte).trans htt, ⟨v, e, t, rfl, hv, he, hwithin.text, hn⟩,
    hwithin.depth, ?_⟩
  exact allScoped_of_within hwithin hs

theorem readNested_sound {levels : Nat} {enclosing : Option String} {c after : Cursor}
    {compound : Compound} (h : readNested standard levels enclosing c = .ok (compound, after)) :
    ∃ text, c.Takes text after ∧ CompoundText text compound ∧ compound.depth ≤ levels ∧
      compound.Scoped enclosing := by
  induction levels generalizing enclosing c after compound with
  | zero => exact readWith_sound (fun _ _ h => by simp at h) h
  | succ levels ih =>
    refine readWith_sound (fun name read hread => ?_) h
    obtain rfl := Option.some.inj hread
    exact ⟨levels, rfl, fun _ _ _ h => ih h⟩

end Compound

/-! ## Selectors -/

namespace Combinator

theorem read?_sound {c after : Cursor} {combinator : Combinator}
    (h : read? standard c = some (combinator, after)) :
    ∃ text, c.Takes text after ∧ CombinatorText text combinator := by
  unfold read? at h
  dsimp only at h
  split at h
  · next found hfound =>
    obtain rfl := Option.some.inj h
    obtain ⟨⟨kind, sign⟩, hmem, hsign⟩ := List.exists_of_findSome?_eq_some hfound
    obtain ⟨⟨text, d⟩, htoken, heq⟩ := Option.map_eq_some_iff.mp hsign
    obtain ⟨rfl, rfl⟩ := Prod.mk.inj heq
    obtain ⟨htext, ht, -⟩ := token_iff.mp htoken
    refine ⟨text, ht, ?_⟩
    simp only [signs, List.mem_cons, Prod.mk.injEq, List.not_mem_nil, or_false] at hmem
    rcases hmem with ⟨rfl, rfl⟩ | ⟨rfl, rfl⟩ | ⟨rfl, rfl⟩
    · exact .nextSibling htext
    · exact .laterSibling htext
    · exact .child htext
  · split at h
    · simp at h
    · next text d htoken =>
      obtain ⟨htext, ht, -⟩ := token_iff.mp htoken
      split at h
      · simp at h
      · obtain ⟨rfl, rfl⟩ := Prod.mk.inj (Option.some.inj h)
        exact ⟨text, ht, .descendant htext⟩

end Combinator

/-- The bounds that a grammar without context leaves to the trees. -/
structure Compound.Bounded (compound : Compound) : Prop where
  depth : compound.depth ≤ maxNegationDepth
  scope : compound.Scoped none

namespace Selector

/-- Steps that the grammar has, within the bounds. -/
def BoundedSteps (text : List Char) (steps : List Step) : Prop :=
  StepsText text steps ∧ ∀ step ∈ steps, step.compound.Bounded

theorem readSteps_sound {c after : Cursor} {steps : List (Nat × Step)}
    (h : c.readWhile (Step.read? standard) = .ok (steps, after)) :
    ∃ text, c.Takes text after ∧ BoundedSteps text (steps.map Prod.snd) := by
  refine Cursor.readWhile_sound (P := BoundedSteps) ⟨.nil, by simp⟩ ?_ h
  rintro c step d t rest hitem ⟨ht, hrest⟩
  unfold Step.read? at hitem
  split at hitem
  · simp at hitem
  · next combinator c1 hcombinator =>
    obtain ⟨s, hts, hs⟩ := Combinator.read?_sound hcombinator
    obtain ⟨⟨compound, last⟩, hread, hfound⟩ := map_eq_ok_iff.mp hitem
    cases hfound
    obtain ⟨u, htu, hu, hdepth, hscope⟩ := Compound.readNested_sound hread
    exact ⟨s ++ u, hts.trans htu, .cons hs hu ht,
      List.forall_mem_cons.mpr ⟨⟨hdepth, hscope⟩, hrest⟩⟩

/-- A selector as the reader makes it: in the grammar, and within the bounds. -/
theorem read_sound {c after : Cursor} {selector : Selector}
    (h : read standard c = .ok (selector, after)) :
    ∃ text, c.Takes text after ∧ SelectorText text selector ∧
      ∀ step ∈ selector.steps, step.compound.Bounded := by
  obtain ⟨⟨compound, c2⟩, hcompound, h⟩ := bind_eq_ok_iff.mp h
  obtain ⟨⟨steps, c3⟩, hsteps, h⟩ := bind_eq_ok_iff.mp h
  simp only [pure, Except.pure, Except.ok.injEq, Prod.mk.injEq] at h
  obtain ⟨rfl, rfl⟩ := h
  obtain ⟨t, htt, ht, hdepth, hscope⟩ := Compound.readNested_sound hcompound
  obtain ⟨u, htu, hu, hrest⟩ := readSteps_sound hsteps
  have hbounded (combinator : Combinator) :
      ∀ step ∈ ⟨combinator, compound⟩ :: steps.map Prod.snd, step.compound.Bounded :=
    List.forall_mem_cons.mpr ⟨⟨hdepth, hscope⟩, hrest⟩
  cases htoken : standard.token .parentOf c with
  | none =>
    simp only [htoken] at htt ⊢
    exact ⟨[] ++ t ++ u, htt.trans htu, .intro .absent ht hu, hbounded _⟩
  | some found =>
    obtain ⟨s, c1⟩ := found
    simp only [htoken] at htt ⊢
    obtain ⟨hs, hts, -⟩ := token_iff.mp htoken
    exact ⟨s ++ t ++ u, (hts.trans htt).trans htu, .intro (.child hs) ht hu, hbounded _⟩

end Selector

end SelectorPath
