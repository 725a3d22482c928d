import SelectorPath.Proofs.Compile.Rearrangement
import SelectorPath.Proofs.Selector.Completeness

/-!
Qualifiers commute. The text of a compound is a text for its element test and texts that are each read
as one of its qualifiers, wherever they stand (`Compound.Cut`), so that these can be put in any order
(`Compound.qualifiers_commute`).
-/

namespace SelectorPath

open Text Grammar Lexicon XPath

/-! ## Texts of qualifiers -/

theorem Grammar.QualifiersText.append {s t : List Char} {qualifiers rest : List Qualifier}
    (h : QualifiersText s qualifiers) (ht : QualifiersText t rest) :
    QualifiersText (s ++ t) (qualifiers ++ rest) := by
  induction h with
  | nil => exact ht
  | plain hq _ ih =>
    rw [List.append_assoc]
    exact .plain hq ih
  | negation hname hv he hs hn hw _ _ ih =>
    rw [List.append_assoc]
    exact .negation hname hv he hs hn hw ih

/-- Qualifiers are written one after another. -/
theorem qualifiersText_iff {t : List Char} {qualifiers : List Qualifier} :
    QualifiersText t qualifiers ↔ ∃ parts : List (List Char × Qualifier),
      t = parts.flatMap Prod.fst ∧ qualifiers = parts.map Prod.snd ∧
        ∀ part ∈ parts, QualifiersText part.1 [part.2] := by
  constructor
  · intro h
    induction h with
    | nil => exact ⟨[], rfl, rfl, by simp⟩
    | @plain s t q rest hq _ ih =>
      obtain ⟨parts, rfl, rfl, hparts⟩ := ih
      have hfirst : QualifiersText s [q] := by simpa using QualifiersText.plain hq .nil
      exact ⟨(s, q) :: parts, rfl, rfl, List.forall_mem_cons.mpr ⟨hfirst, hparts⟩⟩
    | @negation name v e s w t element qualifiers rest hname hv he hs hn hw _ _ ih =>
      obtain ⟨parts, rfl, rfl, hparts⟩ := ih
      have hfirst : QualifiersText (':' :: (name ++ ['('] ++ (v ++ e ++ s) ++ w ++ [')']))
          [.negation element qualifiers] := by
        simpa using QualifiersText.negation hname hv he hs hn hw .nil
      exact ⟨(_, _) :: parts, rfl, rfl, List.forall_mem_cons.mpr ⟨hfirst, hparts⟩⟩
  · rintro ⟨parts, rfl, rfl, hparts⟩
    induction parts with
    | nil => exact .nil
    | cons part parts ih =>
      obtain ⟨hfirst, hrest⟩ := List.forall_mem_cons.mp hparts
      exact hfirst.append (ih hrest)

namespace Qualifier

/-- A text is read as a qualifier wherever it stands, unless a name goes on after it. -/
def IsReadFrom (levels : Nat) (name : Option String) (s : List Char) (q : Qualifier) : Prop :=
  ∀ c d : Cursor, c.Takes s d → headIs isNamePart d.rest = false →
    read? standard (Compound.argument? standard levels name) c = .ok (some (q, d))

theorem argument?_sound (levels : Nat) (name : Option String) :
    ArgumentSound levels name (Compound.argument? standard levels name) := by
  cases levels with
  | zero => exact fun read h => by simp [Compound.argument?] at h
  | succ levels =>
    rintro read ⟨⟩
    exact ⟨levels, rfl, fun c compound after h => Compound.readNested_sound h⟩

/-- The texts that are read as a qualifier are those of the grammar, within the bounds. -/
theorem isReadFrom_iff {levels : Nat} {name : Option String} {s : List Char} {q : Qualifier} :
    IsReadFrom levels name s q ↔
      QualifiersText s [q] ∧ q.depth ≤ levels ∧ (q.isSameType = false → q.Scoped name) := by
  constructor
  · intro h
    have hts : (⟨0, s⟩ : Cursor).Takes s ⟨byteLength s, []⟩ := ⟨by simp, by simp⟩
    have hnil : Within levels name [] [] := ⟨.nil, Nat.zero_le _, by simp⟩
    obtain ⟨s', hts', hwithin⟩ := read?_sound (argument?_sound levels name) (h _ _ hts rfl) hnil
    obtain rfl : s = s' := by simpa using hts'.rest
    rw [List.append_nil] at hwithin
    exact ⟨hwithin.text, by simpa [depthAll] using hwithin.depth, hwithin.scope q (by simp)⟩
  · rintro ⟨htext, hdepth, hscope⟩ c d ht hd
    generalize hqualifiers : [q] = qualifiers at htext
    cases htext with
    | nil => simp at hqualifiers
    | plain hq hrest =>
      obtain ⟨rfl, rfl⟩ := List.cons.inj hqualifiers
      cases hrest
      rw [List.append_nil] at ht
      exact read?_plain hq ht hd
    | @negation nm v e s w t element qualifiers rest hname hv he hs hn hw hrest =>
      obtain ⟨rfl, rfl⟩ := List.cons.inj hqualifiers
      cases hrest
      obtain ⟨levels, rfl⟩ : ∃ l, levels = l + 1 := ⟨levels - 1, by simp [depth] at hdepth; omega⟩
      have hparts : c.Takes ((':' :: nm) ++ (['('] ++ ((v ++ e ++ s) ++ (w ++ [')'])))) d := by
        simpa using ht
      obtain ⟨c1, ht1, hparts⟩ := hparts.split
      obtain ⟨c2, ht2, hparts⟩ := hparts.split
      obtain ⟨c3, ht3, ht4⟩ := hparts.split
      have hclose : EndsCompound c3.rest := by
        rw [ht4.rest, List.append_assoc]
        exact .append_spaces hw (.cons (by decide) _)
      have hread : Compound.readNested standard levels name c2 = .ok (⟨element, qualifiers⟩, c3) :=
        Compound.readNested_complete ⟨v, e, s, rfl, hv, he, hs, hn⟩
          (Nat.le_of_succ_le_succ hdepth) (hscope rfl) ht3 hclose
      exact read?_negation hname ht1 ht2 hread hw ht4

theorem depthAll_le_iff {levels : Nat} {qualifiers : List Qualifier} :
    depthAll qualifiers ≤ levels ↔ ∀ q ∈ qualifiers, q.depth ≤ levels := by
  induction qualifiers with
  | nil => simp [depthAll]
  | cons q rest ih => simp [depthAll, ih]

end Qualifier

/-! ## Texts of compounds -/

namespace Compound

/-- A text for the element test of a compound, and texts that are read as its qualifiers. -/
structure Cut (levels : Nat) (enclosing : Option String) (compound : Compound) (head : List Char)
    (parts : List (List Char × Qualifier)) : Prop where
  head : ∃ v e, head = v ++ e ∧ SpaceText v ∧ ElementText e compound.element
  qualifiers : parts.map Prod.snd = compound.qualifiers
  parts : ∀ part ∈ parts, Qualifier.IsReadFrom levels
    ((ElementTest.name? compound.element).or enclosing) part.1 part.2

variable {levels : Nat} {enclosing : Option String}

/-- A compound that is read is cut into texts for its element test and its qualifiers. -/
theorem exists_cut {c after : Cursor} {compound : Compound}
    (h : readNested standard levels enclosing c = .ok (compound, after)) :
    ∃ head parts, Cut levels enclosing compound head parts ∧
      c.Takes (head ++ parts.flatMap Prod.fst) after := by
  obtain ⟨_, hts, ⟨v, e, t, rfl, hv, he, ht, -⟩, hdepth, hscope⟩ := readNested_sound h
  obtain ⟨parts, rfl, hqualifiers, hparts⟩ := qualifiersText_iff.mp ht
  refine ⟨v ++ e, parts, ⟨⟨v, e, rfl, hv, he⟩, hqualifiers.symm, fun part hpart => ?_⟩, hts⟩
  have hmem : part.2 ∈ compound.qualifiers := hqualifiers ▸ List.mem_map_of_mem hpart
  exact Qualifier.isReadFrom_iff.mpr ⟨hparts part hpart,
    Qualifier.depthAll_le_iff.mp hdepth part.2 hmem,
    fun _ => Qualifier.allScoped_iff.mp hscope part.2 hmem⟩

/-- The parts of a compound that is read can be put in any order. -/
theorem Cut.readNested_perm {c after : Cursor} {compound : Compound}
    (h : readNested standard levels enclosing c = .ok (compound, after)) {head : List Char}
    {parts parts' : List (List Char × Qualifier)} (hcut : Cut levels enclosing compound head parts)
    (hperm : parts.Perm parts') {d last : Cursor}
    (ht : d.Takes (head ++ parts'.flatMap Prod.fst) last) (hend : EndsCompound last.rest) :
    readNested standard levels enclosing d =
      .ok (⟨compound.element, parts'.map Prod.snd⟩, last) := by
  obtain ⟨_, -, ⟨_, _, _, -, -, -, -, hnonempty⟩, hdepth, hscope⟩ := readNested_sound h
  obtain ⟨v, e, rfl, hv, he⟩ := hcut.head
  have hqualifiers : (parts'.map Prod.snd).Perm compound.qualifiers :=
    hcut.qualifiers ▸ (hperm.map Prod.snd).symm
  have htext : QualifiersText (parts'.flatMap Prod.fst) (parts'.map Prod.snd) :=
    qualifiersText_iff.mpr ⟨parts', rfl, rfl, fun part hpart =>
      (Qualifier.isReadFrom_iff.mp (hcut.parts part (hperm.mem_iff.mpr hpart))).1⟩
  have hne : (⟨compound.element, parts'.map Prod.snd⟩ : Compound).Nonempty := by
    intro hnone hnil
    have hnil : parts'.map Prod.snd = [] := hnil
    rw [hnil] at hqualifiers
    exact hnonempty hnone hqualifiers.nil_eq.symm
  have hcompound : CompoundText (v ++ e ++ parts'.flatMap Prod.fst)
      ⟨compound.element, parts'.map Prod.snd⟩ := ⟨v, e, _, rfl, hv, he, htext, hne⟩
  refine readNested_complete hcompound ?_ ?_ ht hend
  · exact Qualifier.depthAll_le_iff.mpr fun q hq =>
      Qualifier.depthAll_le_iff.mp hdepth q (hqualifiers.mem_iff.mp hq)
  · exact Qualifier.allScoped_iff.mpr fun q hq =>
      Qualifier.allScoped_iff.mp hscope q (hqualifiers.mem_iff.mp hq)

/-- Qualifiers commute. The text of a step has a lead that only its combinator decides, and another
order of the qualifiers, or of those in negations at any depth, changes the order of the terms in its
brackets, or in their negations, and nothing else. In the text of a compound that is read, the texts
of the qualifiers can be put in any order, and are then read as the qualifiers in that order. -/
theorem qualifiers_commute :
    (∀ (anchor : Anchor) (selector : Selector), (selector.path anchor).render =
      (if anchor = .document then "/" else "") ++
        "/".intercalate (selector.steps.map Step.xpath)) ∧
    (∀ (combinator : Combinator) (element : Option ElementTest)
        (qualifiers qualifiers' : List Qualifier),
      let brackets := Compound.brackets combinator.leadsToChildren ⟨element, qualifiers⟩
      let brackets' := Compound.brackets combinator.leadsToChildren ⟨element, qualifiers'⟩
      Step.xpath ⟨combinator, element, qualifiers⟩ = combinator.lead ++ bracketTexts brackets ∧
        Step.xpath ⟨combinator, element, qualifiers'⟩ = combinator.lead ++ bracketTexts brackets' ∧
        (qualifiers.Perm qualifiers' → List.Forall₂ List.Perm brackets brackets') ∧
        (Qualifier.Rearranged qualifiers qualifiers' →
          List.Forall₂ Expr.Rearranged brackets brackets')) ∧
    ∀ (levels : Nat) (enclosing : Option String) (c after : Cursor) (compound : Compound),
      readNested standard levels enclosing c = .ok (compound, after) →
      (∃ head parts, Cut levels enclosing compound head parts ∧
        c.Takes (head ++ parts.flatMap Prod.fst) after) ∧
      ∀ head parts, Cut levels enclosing compound head parts → ∀ parts', parts.Perm parts' →
        ∀ d last : Cursor, d.Takes (head ++ parts'.flatMap Prod.fst) last → EndsCompound last.rest →
          readNested standard levels enclosing d =
            .ok (⟨compound.element, parts'.map Prod.snd⟩, last) := by
  refine ⟨Selector.render_path, fun combinator element qualifiers qualifiers' => ?_, ?_⟩
  · exact ⟨Step.xpath_eq _, Step.xpath_eq _, fun h => brackets_perm h _ element,
      fun h => brackets_rearranged h _ element⟩
  · intro levels enclosing c after compound h
    exact ⟨exists_cut h, fun head parts hcut parts' hperm d last ht hend =>
      hcut.readNested_perm h hperm ht hend⟩

/-- Two qualifiers and a negation of two others, in the order of the text and in the opposite one. -/
theorem qualifiers_commute_reversed :
    let inner : List Qualifier := [.id "b", .className "c"]
    let qualifiers : List Qualifier :=
      [.place .first .sameType, .className "a", .negation none inner]
    let compound : Compound := ⟨some (.named "p"), qualifiers⟩
    List.Forall₂ List.Perm (brackets true compound)
        (brackets true ⟨compound.element, qualifiers.reverse⟩) ∧
      List.Forall₂ Expr.Rearranged (brackets true compound)
        (brackets true ⟨compound.element,
          [.place .first .sameType, .className "a", .negation none inner.reverse]⟩) ∧
      readNested standard 1 none (.start "p:first-of-type.a:not(#b.c)") =
        .ok (compound, ⟨27, []⟩) ∧
      ∃ head parts, Cut 1 none compound head parts ∧
        (Cursor.start "p:first-of-type.a:not(#b.c)").Takes (head ++ parts.flatMap Prod.fst)
          ⟨27, []⟩ ∧
        ∃ last, readNested standard 1 none ⟨0, head ++ parts.reverse.flatMap Prod.fst⟩ =
          .ok (⟨compound.element, qualifiers.reverse⟩, last) := by
  intro inner qualifiers compound
  obtain ⟨-, hbrackets, hreaders⟩ := qualifiers_commute
  obtain ⟨-, -, hperm, -⟩ := hbrackets .child compound.element qualifiers qualifiers.reverse
  obtain ⟨-, -, -, hinside⟩ := hbrackets .child compound.element qualifiers
    [.place .first .sameType, .className "a", .negation none inner.reverse]
  have hread : readNested standard 1 none (.start "p:first-of-type.a:not(#b.c)") =
      .ok (compound, ⟨27, []⟩) := by
    cbv
  obtain ⟨⟨head, parts, hcut, ht⟩, hany⟩ := hreaders _ _ _ _ _ hread
  have hlast := hany head parts hcut parts.reverse parts.reverse_perm.symm
    ⟨0, head ++ parts.reverse.flatMap Prod.fst⟩ _ (.advance _ (List.append_nil _).symm) .nil
  rw [List.map_reverse, hcut.qualifiers] at hlast
  refine ⟨hperm qualifiers.reverse_perm.symm, hinside ?_, hread, head, parts, hcut, ht, _, hlast⟩
  exact .cons _ (.cons _ (.inside none (.refl _) inner.reverse_perm.symm .nil))

end Compound

end SelectorPath
