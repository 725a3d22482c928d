import SelectorPath.Proofs.Selector.Completeness

/-!
The reader of selector lists accepts exactly the grammar: a text gives a list of selectors if
and only if the grammar relates the two and the selectors keep to the bounds on the depth of
negations and on the names around tests of the position among siblings of the same name.
-/

namespace SelectorPath

open Text Grammar Lexicon

namespace SelectorList

/-! ## Members -/

/-- The members are kept or left out. -/
theorem kept_add_skipped (members : List Member) :
    (members.filterMap Member.kept?).length + (members.filterMap Member.skipped?).length =
      members.length := by
  induction members with
  | nil => rfl
  | cons member members ih =>
    cases member with
    | kept selector =>
      simp only [List.filterMap_cons, Member.kept?, Member.skipped?, List.length_cons]
      omega
    | skipped member =>
      simp only [List.filterMap_cons, Member.kept?, Member.skipped?, List.length_cons]
      omega

/-- Members give a list unless all of them are left out. -/
theorem ofMembers_eq_ok_iff {members : List Member} {list : SelectorList} :
    ofMembers members = .ok list ↔
      (members ≠ [] → members.filterMap Member.kept? ≠ []) ∧
        list = ⟨members.filterMap Member.kept?, members.filterMap Member.skipped?⟩ := by
  have hlength := kept_add_skipped members
  unfold ofMembers
  cases hkept : members.filterMap Member.kept? with
  | cons selector rest => simp [eq_comm]
  | nil =>
    cases hskipped : members.filterMap Member.skipped? with
    | nil =>
      -- Nothing was kept and nothing left out, so there are no members.
      have hnil : members = [] := by
        rw [hkept, hskipped] at hlength
        exact List.length_eq_zero_iff.mp hlength.symm
      simp [hnil, eq_comm]
    | cons first rest =>
      have hne : members ≠ [] := by
        rintro rfl
        simp at hskipped
      simp [hne]

theorem ofMembers_kept (selectors : List Selector) :
    ofMembers (selectors.map .kept) = .ok ⟨selectors, []⟩ := by
  have hkept : (selectors.map Member.kept).filterMap Member.kept? = selectors := by
    rw [List.filterMap_map]
    exact List.filterMap_some
  have hskipped : (selectors.map Member.kept).filterMap Member.skipped? = [] := by
    simp [Member.skipped?]
  rw [ofMembers_eq_ok_iff, hkept, hskipped]
  exact ⟨by simp, rfl⟩

/-- Members that the grammar has, all of them kept and within the bounds. -/
def KeptMembers (text : List Char) (members : List Member) : Prop :=
  ∃ selectors, members = selectors.map .kept ∧ MembersText text selectors ∧
    ∀ selector ∈ selectors, ∀ step ∈ selector.steps, step.compound.Bounded

/-- A member that is read is the selector at its place or left out. -/
theorem readMember_cases {lexicon : Lexicon} {policy : ListPolicy} {c after : Cursor}
    {member : Member} (h : readMember lexicon policy c = .ok (member, after)) :
    (∃ selector, Selector.read lexicon c = .ok (selector, after) ∧ member = .kept selector) ∨
      ∃ error, (member, after) = skipMember c error := by
  unfold readMember at h
  split at h
  · next selector _ hread =>
    cases h
    exact .inl ⟨selector, hread, rfl⟩
  · cases h
  · next selector last hread =>
    split at h
    · cases h
      exact .inl ⟨selector, hread, rfl⟩
    · exact .inr ⟨trailing lexicon last, (Except.ok.inj h).symm⟩
  · next e _ => exact .inr ⟨e, (Except.ok.inj h).symm⟩

theorem readMember_strict {c : Cursor} : readMember standard .strict c =
    (Selector.read standard c).map fun (selector, after) => (.kept selector, after) := by
  unfold readMember
  cases Selector.read standard c <;> rfl

theorem readMember_strict_of_read {c d : Cursor} {selector : Selector}
    (h : Selector.read standard c = .ok (selector, d)) :
    readMember standard .strict c = .ok (.kept selector, d) := by
  rw [readMember_strict, h]
  rfl

theorem readMembers_sound {c last : Cursor} {members : List Member}
    (h : readMembers standard .strict c = .ok (members, last)) :
    ∃ text, c.Takes text last ∧ KeptMembers text members := by
  have hmember : ∀ c member d, readMember standard .strict c = .ok (member, d) →
      ∃ s selector, member = .kept selector ∧ c.Takes s d ∧ SelectorText s selector ∧
        ∀ step ∈ selector.steps, step.compound.Bounded := by
    intro c member d h
    rw [readMember_strict] at h
    obtain ⟨⟨selector, after⟩, hread, hfound⟩ := map_eq_ok_iff.mp h
    cases hfound
    obtain ⟨s, hts, hs, hbounded⟩ := Selector.read_sound hread
    exact ⟨s, selector, rfl, hts, hs, hbounded⟩
  refine Cursor.readSeparated_sound (P := KeptMembers) ?_ ?_ h
  · intro c member d h
    obtain ⟨s, selector, rfl, hts, hs, hbounded⟩ := hmember c member d h
    exact ⟨s, hts, [selector], rfl, .last hs, by simpa using hbounded⟩
  · rintro c member d e t _ h hcomma ⟨rest, rfl, ht, hrest⟩
    obtain ⟨s, selector, rfl, hts, hs, hbounded⟩ := hmember c member d h
    obtain ⟨⟨comma, e'⟩, htoken, rfl⟩ := Option.map_eq_some_iff.mp hcomma
    obtain ⟨htext, htc, -⟩ := token_iff.mp htoken
    exact ⟨s ++ comma, hts.trans htc, selector :: rest, rfl, .cons hs htext ht,
      List.forall_mem_cons.mpr ⟨hbounded, hrest⟩⟩

theorem comma_of_text {s : List Char} {c d : Cursor} (hs : Spaced ',' s) (ht : c.Takes s d) :
    comma standard c = some d := by
  rw [comma, token_of_text .comma rfl hs ht]
  rfl

theorem comma_eq_none {c : Cursor} (h : standard.token .comma c = none) :
    comma standard c = none := by
  rw [comma, h]
  rfl

theorem comma_of_spaces {c : Cursor} (h : SpaceText c.rest) : comma standard c = none :=
  comma_eq_none (token_spaced_eq_none .comma rfl rfl h rfl rfl (List.append_nil _).symm)

theorem append_spaced_ne_nil {sign : Char} {t : List Char} (s : List Char) (h : Spaced sign t) :
    s ++ t ≠ [] := by
  obtain ⟨w, rfl, -⟩ := h
  simp

theorem readMembers_complete {s : List Char} {selectors : List Selector}
    (h : MembersText s selectors) {c after : Cursor}
    (hbounded : ∀ selector ∈ selectors, ∀ step ∈ selector.steps, step.compound.Bounded)
    (ht : c.Takes s after) (hend : SpaceText after.rest) :
    readMembers standard .strict c = .ok (selectors.map .kept, after) := by
  induction h generalizing c with
  | @last s selector hs =>
    have hends : EndsSelector after.rest :=
      ⟨after.rest, [], (List.append_nil _).symm, hend, .inl rfl⟩
    have hread := Selector.read_complete hs (by simpa using hbounded) ht hends
    exact Cursor.readSeparated_last (readMember_strict_of_read hread) (comma_of_spaces hend)
  | @cons s comma t selector rest hs hcomma hmembers ih =>
    obtain ⟨hfirst, hothers⟩ := List.forall_mem_cons.mp hbounded
    obtain ⟨e, htse, htt⟩ := ht.split
    obtain ⟨d, hts, htc⟩ := htse.split
    have hends : EndsSelector d.rest := by
      obtain ⟨w, rfl, hw⟩ := hcomma
      refine ⟨w, ',' :: e.rest, ?_, hw, .inr ⟨_, rfl⟩⟩
      rw [htc.rest, List.append_assoc, List.singleton_append]
    have hread := Selector.read_complete hs hfirst hts hends
    exact Cursor.readSeparated_cons (readMember_strict_of_read hread) (comma_of_text hcomma htc)
      htse (append_spaced_ne_nil s hcomma) (ih hothers htt)

/-! ## Texts -/

theorem finish_eq_ok_iff {c : Cursor} : finish standard c = .ok () ↔ SpaceText c.rest := by
  obtain ⟨w, hw, ht, hend⟩ := skip_spaces_iff.mp (rfl : standard.skip .spaces c = _)
  unfold finish
  cases hrest : (standard.skip .spaces c).rest with
  | nil =>
    have hspaces : SpaceText c.rest := by
      rw [ht.rest, hrest, List.append_nil]
      exact hw
    simp [Cursor.atEnd, hrest, hspaces]
  | cons x r =>
    have hx : isSpace x = false := by simpa [hrest] using hend
    simp only [Cursor.atEnd, hrest, List.isEmpty_cons, Bool.false_eq_true, ↓reduceIte,
      reduceCtorEq, false_iff]
    intro hspaces
    have hx' := hspaces x (by simp [ht.rest, hrest])
    simp [hx] at hx'

theorem read_eq_ok_iff {lexicon : Lexicon} {policy : ListPolicy} {c last : Cursor}
    {list : SelectorList} :
    read lexicon policy c = .ok (list, last) ↔
      ∃ members, readMembers lexicon policy c = .ok (members, last) ∧
        ofMembers members = .ok list := by
  unfold read
  simp only [bind_eq_ok_iff, Prod.exists, pure, Except.pure, Except.ok.injEq, Prod.mk.injEq]
  constructor
  · rintro ⟨members, last, hread, list, hlist, rfl, rfl⟩
    exact ⟨members, hread, hlist⟩
  · rintro ⟨members, hread, hlist⟩
    exact ⟨members, last, hread, list, hlist, rfl, rfl⟩

/-- A text within the limit gives the list at its start if nothing else follows. -/
theorem ofText_eq_ok_iff {options : Options} {text : String} {list : SelectorList} :
    ofText standard options text = .ok list ↔
      (∀ limit, options.maxLength = some limit → byteLength text.toList ≤ limit) ∧
        ∃ last, read standard options.policy (.start text) = .ok (list, last) ∧
          SpaceText last.rest := by
  have hafter : (do
      let result ← read standard options.policy (.start text)
      finish standard result.2
      return result.1) = .ok list ↔
      ∃ last, read standard options.policy (.start text) = .ok (list, last) ∧
        SpaceText last.rest := by
    simp only [bind_eq_ok_iff, Prod.exists, pure, Except.pure, Except.ok.injEq]
    constructor
    · rintro ⟨_, last, hread, ⟨⟩, hfinish, rfl⟩
      exact ⟨last, hread, finish_eq_ok_iff.mp hfinish⟩
    · rintro ⟨last, hread, hlast⟩
      exact ⟨list, last, hread, (), finish_eq_ok_iff.mpr hlast, rfl⟩
  unfold ofText
  cases hmax : options.maxLength with
  | none => simpa [hmax] using hafter
  | some limit =>
    by_cases hlimit : limit < byteLength text.toList
    · simp [hlimit, Nat.not_le.mpr hlimit, bind, Except.bind]
    · simpa [hlimit, Nat.not_lt.mp hlimit] using hafter

/-- Selectors that the grammar relates to a text, within the bounds. -/
structure Accepted (text : List Char) (selectors : List Selector) : Prop where
  text : ListText text selectors
  bounded : ∀ selector ∈ selectors, ∀ step ∈ selector.steps, step.compound.Bounded

/-- Read strictly, a text gives the selectors that are accepted, and leaves none out. -/
theorem ofText_strict_iff {anchor : Anchor} {text : String} {list : SelectorList} :
    ofText standard ⟨anchor, .strict, none⟩ text = .ok list ↔
      Accepted text.toList list.selectors ∧ list.skipped = [] := by
  rw [ofText_eq_ok_iff]
  constructor
  · rintro ⟨-, last, hread, hlast⟩
    obtain ⟨members, hread, hmembers⟩ := read_eq_ok_iff.mp hread
    obtain ⟨s, hts, selectors, rfl, hs, hbounded⟩ := readMembers_sound hread
    rw [ofMembers_kept] at hmembers
    obtain rfl := Except.ok.inj hmembers
    exact ⟨⟨⟨s, last.rest, hts.rest, hs, hlast⟩, hbounded⟩, rfl⟩
  · obtain ⟨selectors, skipped⟩ := list
    rintro ⟨⟨⟨s, w, htext, hs, hw⟩, hbounded⟩, rfl⟩
    have hread := readMembers_complete hs hbounded (Cursor.Takes.advance (.start text) htext) hw
    exact ⟨by simp, _, read_eq_ok_iff.mpr ⟨_, hread, ofMembers_kept selectors⟩, hw⟩

/-- A text gives selectors if and only if the grammar relates the two and the selectors keep to
the bounds. -/
theorem ofText_iff_listText (text : String) (selectors : List Selector) :
    (∃ list, ofText .standard .standard text = .ok list ∧ list.selectors = selectors) ↔
      ListText text.toList selectors ∧
        ∀ selector ∈ selectors, ∀ step ∈ selector.steps,
          step.compound.depth ≤ 32 ∧ step.compound.Scoped none := by
  constructor
  · rintro ⟨list, h, rfl⟩
    obtain ⟨haccepted, -⟩ := ofText_strict_iff.mp h
    refine ⟨haccepted.text, fun selector hselector step hstep => ?_⟩
    have hbounded := haccepted.bounded selector hselector step hstep
    exact ⟨hbounded.depth, hbounded.scope⟩
  · rintro ⟨htext, hbounded⟩
    have haccepted : Accepted text.toList selectors := by
      refine ⟨htext, fun selector hselector step hstep => ?_⟩
      obtain ⟨hdepth, hscope⟩ := hbounded selector hselector step hstep
      exact ⟨hdepth, hscope⟩
    exact ⟨⟨selectors, []⟩, ofText_strict_iff.mpr ⟨haccepted, rfl⟩, rfl⟩

end SelectorList

end SelectorPath
