import SelectorPath.Proofs.Selector.Segments

/-!
The two policies for lists. A list that leaves out bad members is read to the end of the text,
member by member (`SelectorList.readMembers_skipInvalid`), and says what the strict list is
(`SelectorList.ofText_strict_eq`).
-/

namespace SelectorPath

open Text Grammar Lexicon

namespace SelectorList

/-! ## The end of a member -/

/-- What can follow a place: nothing but white space, a comma, or text that is left over. -/
inductive Boundary (c : Cursor) : Prop
  | spaces : SpaceText c.rest → atBoundary standard c = true → Boundary c
  | comma {s : List Char} {d : Cursor} : Spaced ',' s → c.Takes s d →
      standard.token .comma c = some (s, d) → atBoundary standard c = true → Boundary c
  | inside : standard.token .comma c = none → atBoundary standard c = false →
      finish standard c = .error (trailing standard c) → Boundary c

theorem atBoundary_eq (c : Cursor) : atBoundary standard c =
    (headIs (· == ',') (standard.skip .spaces c).rest || (standard.skip .spaces c).atEnd) := by
  obtain ⟨w, hw, ht, hspace⟩ := skip_spaces_iff.mp (rfl : standard.skip .spaces c = _)
  rw [atBoundary, peek_comma ht.rest hw hspace]

theorem atBoundary_of_ends {c : Cursor} (h : c.rest = [] ∨ ∃ t, c.rest = ',' :: t) :
    atBoundary standard c = true := by
  have hspace : headIs isSpace c.rest = false := by
    rcases h with h | ⟨t, h⟩ <;> rw [h] <;> rfl
  rw [atBoundary_eq, skip_spaces_iff.mpr ⟨[], by simp, .refl c, hspace⟩]
  rcases h with h | ⟨t, h⟩ <;> simp [Cursor.atEnd, h]

theorem boundary (c : Cursor) : Boundary c := by
  obtain ⟨w, hw, ht, hspace⟩ := skip_spaces_iff.mp (rfl : standard.skip .spaces c = _)
  have hboundary := atBoundary_eq c
  have hpeek := peek_comma ht.rest hw hspace
  rw [Cursor.atEnd] at hboundary
  generalize hrest : (standard.skip .spaces c).rest = r at ht hspace hboundary hpeek
  cases htoken : standard.token .comma c with
  | some found =>
    obtain ⟨hs, hts, -⟩ := token_iff.mp htoken
    rw [peek, htoken, Option.isSome_some] at hpeek
    exact .comma hs hts htoken (by rw [hboundary, ← hpeek, Bool.true_or])
  | none =>
    rw [peek, htoken, Option.isSome_none] at hpeek
    rw [← hpeek, Bool.false_or] at hboundary
    cases r with
    | nil =>
      have hspaces : SpaceText c.rest := by
        rw [ht.rest, hrest, List.append_nil]
        exact hw
      exact .spaces hspaces hboundary
    | cons x r =>
      refine .inside htoken hboundary ?_
      rw [finish, Cursor.atEnd, hrest]
      rfl

/-! ## Members that are left out -/

/-- What is wrong with a member: it cannot be read, or it is followed by other text. -/
inductive Refused (c : Cursor) : SelectorError → Prop
  | unread {e : SelectorError} : Selector.read standard c = .error e → Refused c e
  | followed {selector : Selector} {after : Cursor} :
      Selector.read standard c = .ok (selector, after) → atBoundary standard after = false →
      Refused c (trailing standard after)

theorem readMember_of_error {c : Cursor} {e : SelectorError}
    (h : Selector.read standard c = .error e) :
    readMember standard .skipInvalid c = .ok (skipMember c e) := by
  simp only [readMember, h]

theorem readMember_of_boundary {c d : Cursor} {selector : Selector}
    (h : Selector.read standard c = .ok (selector, d)) (hd : atBoundary standard d = true) :
    readMember standard .skipInvalid c = .ok (.kept selector, d) := by
  simp only [readMember, h, hd, ↓reduceIte]

theorem readMember_of_inside {c d : Cursor} {selector : Selector}
    (h : Selector.read standard c = .ok (selector, d)) (hd : atBoundary standard d = false) :
    readMember standard .skipInvalid c = .ok (skipMember c (trailing standard d)) := by
  simp only [readMember, h, hd, Bool.false_eq_true, ↓reduceIte]

/-- A member is kept, or left out up to the comma. -/
theorem readMember_skipInvalid (c : Cursor) :
    (∃ selector d, readMember standard .skipInvalid c = .ok (.kept selector, d) ∧
        Selector.read standard c = .ok (selector, d) ∧ atBoundary standard d = true) ∨
      ∃ e, readMember standard .skipInvalid c = .ok (skipMember c e) ∧ Refused c e := by
  cases hread : Selector.read standard c with
  | error e => exact .inr ⟨e, readMember_of_error hread, .unread hread⟩
  | ok found =>
    obtain ⟨selector, d⟩ := found
    cases hd : atBoundary standard d with
    | true => exact .inl ⟨selector, d, readMember_of_boundary hread hd, rfl, hd⟩
    | false => exact .inr ⟨_, readMember_of_inside hread hd, .followed hread hd⟩

/-- Cutting at the comma goes past a member as reading it does. -/
theorem readMember_takes {c d : Cursor} {member : Member}
    (h : readMember standard .skipInvalid c = .ok (member, d)) :
    atBoundary standard d = true ∧ ∃ s, c.Takes s d ∧ splitAtComma 0 none c.rest =
      (s ++ (splitAtComma 0 none d.rest).1, (splitAtComma 0 none d.rest).2) := by
  obtain ⟨selector, d', hkept, hread, hboundary⟩ | ⟨e, hskipped, -⟩ := readMember_skipInvalid c
  · obtain ⟨rfl, rfl⟩ := Prod.mk.inj (Except.ok.inj (h.symm.trans hkept))
    obtain ⟨s, hts, hs, -⟩ := Selector.read_sound hread
    exact ⟨hboundary, s, hts, by rw [hts.rest, hs.balanced]⟩
  · obtain ⟨-, rfl⟩ := Prod.mk.inj (Except.ok.inj (h.symm.trans hskipped))
    have hcut := splitAtComma_append 0 none c.rest
    have hends := splitAtComma_snd 0 none c.rest
    refine ⟨atBoundary_of_ends hends, _, .advance c hcut.symm, ?_⟩
    rw [Cursor.advance, splitAtComma_of_ends hends, List.append_nil]

/-! ## Runs -/

/-- A list that leaves out bad members is read to its end, one member after the other. -/
theorem readMembers_skipInvalid {P : Cursor → List Member → Prop}
    (hlast : ∀ c member d, readMember standard .skipInvalid c = .ok (member, d) →
      SpaceText d.rest → P c [member])
    (hcons : ∀ c member d comma e members, readMember standard .skipInvalid c = .ok (member, d) →
      Spaced ',' comma → d.Takes comma e → P e members → P c (member :: members)) (c : Cursor) :
    ∃ members last, readMembers standard .skipInvalid c = .ok (members, last) ∧
      SpaceText last.rest ∧ P c members := by
  -- A member and the comma after it take some of the text that is left.
  induction hn : c.rest.length using Nat.strongRecOn generalizing c with
  | ind n ih =>
  obtain ⟨member, d, hmember⟩ : ∃ member d,
      readMember standard .skipInvalid c = .ok (member, d) := by
    obtain ⟨selector, d, hkept, -⟩ | ⟨e, hskipped, -⟩ := readMember_skipInvalid c
    · exact ⟨_, d, hkept⟩
    · exact ⟨_, _, hskipped⟩
  obtain ⟨hboundary, s, hts, -⟩ := readMember_takes hmember
  cases boundary d with
  | spaces hspaces _ =>
    exact ⟨[member], d, Cursor.readSeparated_last hmember (comma_of_spaces hspaces), hspaces,
      hlast c member d hmember hspaces⟩
  | @comma comma e hcomma htc _ _ =>
    have hne := append_spaced_ne_nil s hcomma
    have hte := hts.trans htc
    obtain ⟨members, last, hread, hspaces, hP⟩ := ih _ (hn ▸ hte.length_lt hne) e rfl
    exact ⟨member :: members, last,
      Cursor.readSeparated_cons hmember (comma_of_text hcomma htc) hte hne hread, hspaces,
      hcons c member d comma e members hmember hcomma htc hP⟩
  | inside _ hinside _ => simp [hinside] at hboundary

theorem ofText_eq_bind (anchor : Anchor) (policy : ListPolicy) (text : String) :
    ofText standard ⟨anchor, policy, none⟩ text = (do
      let result ← read standard policy (.start text)
      finish standard result.2
      return result.1) := rfl

theorem ofText_of_lt {limit : Nat} {text : String} (h : limit < byteLength text.toList)
    (anchor : Anchor) (policy : ListPolicy) :
    ofText standard ⟨anchor, policy, some limit⟩ text =
      .error (.tooLong (byteLength text.toList) limit) := by
  simp [ofText, h, bind, Except.bind]

theorem ofText_of_not_lt {limit : Nat} {text : String} (h : ¬limit < byteLength text.toList)
    (anchor : Anchor) (policy : ListPolicy) :
    ofText standard ⟨anchor, policy, some limit⟩ text =
      ofText standard ⟨anchor, policy, none⟩ text := by
  simp [ofText, h]

/-- A limit refuses a text under both policies, or does not matter. -/
theorem ofText_limit (anchor : Anchor) (limit : Option Nat) (text : String) :
    (∃ e, ∀ policy, ofText standard ⟨anchor, policy, limit⟩ text = .error e) ∨
      ∀ policy, ofText standard ⟨anchor, policy, limit⟩ text =
        ofText standard ⟨anchor, policy, none⟩ text := by
  cases limit with
  | none => exact .inr fun _ => rfl
  | some limit =>
    by_cases hlimit : limit < byteLength text.toList
    · exact .inl ⟨_, ofText_of_lt hlimit anchor⟩
    · exact .inr (ofText_of_not_lt hlimit anchor)

theorem ofText_of_readMembers {anchor : Anchor} {policy : ListPolicy} {text : String}
    {members : List Member} {last : Cursor}
    (h : readMembers standard policy (.start text) = .ok (members, last)) :
    ofText standard ⟨anchor, policy, none⟩ text = (do
      let list ← ofMembers members
      finish standard last
      return list) := by
  rw [ofText_eq_bind, read, h]
  simp only [bind_assoc, pure_bind]
  rfl

theorem ofText_of_readMembers_error {anchor : Anchor} {policy : ListPolicy} {text : String}
    {e : SelectorError} (h : readMembers standard policy (.start text) = .error e) :
    ofText standard ⟨anchor, policy, none⟩ text = .error e := by
  rw [ofText_eq_bind, read, h]
  rfl

/-! ## The strict list -/

/-- Read strictly, the list at a place fails, or it ends before text that is left over. -/
def FailsWith (c : Cursor) (e : SelectorError) : Prop :=
  readMembers standard .strict c = .error e ∨ ∃ (selectors : List Selector) (last : Cursor),
    readMembers standard .strict c = .ok (selectors.map .kept, last) ∧
      finish standard last = .error e

/-- The strict list for the members of a list that leaves out bad ones. -/
inductive StrictOutcome (c : Cursor) : List Member → Prop
  | kept (selectors : List Selector) {last : Cursor} :
      readMembers standard .strict c = .ok (selectors.map .kept, last) → SpaceText last.rest →
      StrictOutcome c (selectors.map .kept)
  | failed (selectors : List Selector) {skipped : Skipped} {rest : List Member} :
      FailsWith c skipped.error →
      StrictOutcome c (selectors.map .kept ++ .skipped skipped :: rest)

theorem readMembers_strict_last {c d : Cursor} {selector : Selector}
    (h : Selector.read standard c = .ok (selector, d)) (hcomma : comma standard d = none) :
    readMembers standard .strict c = .ok ([selector].map .kept, d) :=
  Cursor.readSeparated_last (readMember_strict_of_read h) hcomma

theorem readMembers_strict_error {c : Cursor} {e : SelectorError}
    (h : Selector.read standard c = .error e) : readMembers standard .strict c = .error e := by
  rw [readMembers, Cursor.readSeparated, readMember_strict, h]
  rfl

theorem Refused.failsWith {c : Cursor} {e : SelectorError} (h : Refused c e) : FailsWith c e := by
  cases h with
  | unread hread => exact .inl (readMembers_strict_error hread)
  | @followed selector after hread hinside =>
    cases boundary after with
    | spaces _ hboundary | comma _ _ _ hboundary => simp [hinside] at hboundary
    | inside htoken _ hfinish =>
      have hread := readMembers_strict_last hread (comma_eq_none htoken)
      exact .inr ⟨[selector], after, hread, hfinish⟩

/-- A member in front of a list that cannot be read strictly. -/
theorem FailsWith.cons {c d e : Cursor} {selector : Selector} {s comma : List Char}
    {error : SelectorError} (hread : Selector.read standard c = .ok (selector, d))
    (hts : c.Takes s d) (hcomma : Spaced ',' comma) (htc : d.Takes comma e)
    (h : FailsWith e error) : FailsWith c error := by
  have hnext := comma_of_text hcomma htc
  have hne := append_spaced_ne_nil s hcomma
  have hmember := readMember_strict_of_read hread
  rcases h with h | ⟨selectors, last, h, hfinish⟩
  · refine .inl ?_
    rw [readMembers] at h
    rw [readMembers, Cursor.readSeparated, hmember]
    simp only [hnext, if_pos ((hts.trans htc).length_lt hne), h]
  · exact .inr ⟨selector :: selectors, last,
      Cursor.readSeparated_cons hmember hnext (hts.trans htc) hne h, hfinish⟩

theorem strictOutcome (c : Cursor) :
    ∃ members last, readMembers standard .skipInvalid c = .ok (members, last) ∧
      SpaceText last.rest ∧ StrictOutcome c members := by
  refine readMembers_skipInvalid ?_ ?_ c
  · intro c member d hmember hspaces
    obtain ⟨selector, d', hkept, hread, -⟩ | ⟨e, hskipped, hrefused⟩ := readMember_skipInvalid c
    · obtain ⟨rfl, rfl⟩ := Prod.mk.inj (Except.ok.inj (hmember.symm.trans hkept))
      exact .kept [selector] (readMembers_strict_last hread (comma_of_spaces hspaces)) hspaces
    · obtain ⟨rfl, -⟩ := Prod.mk.inj (Except.ok.inj (hmember.symm.trans hskipped))
      exact .failed [] hrefused.failsWith
  · intro c member d comma e members hmember hcomma htc ih
    obtain ⟨-, s, hts, -⟩ := readMember_takes hmember
    obtain ⟨selector, d', hkept, hread, -⟩ | ⟨error, hskipped, hrefused⟩ :=
      readMember_skipInvalid c
    · obtain ⟨rfl, rfl⟩ := Prod.mk.inj (Except.ok.inj (hmember.symm.trans hkept))
      cases ih with
      | @kept selectors last hread' hspaces =>
        have hne := append_spaced_ne_nil s hcomma
        exact .kept (selector :: selectors) (Cursor.readSeparated_cons
          (readMember_strict_of_read hread) (comma_of_text hcomma htc) (hts.trans htc) hne hread')
          hspaces
      | @failed selectors skipped rest h =>
        exact .failed (selector :: selectors) (h.cons hread hts hcomma htc)
    · obtain ⟨rfl, -⟩ := Prod.mk.inj (Except.ok.inj (hmember.symm.trans hskipped))
      exact .failed [] hrefused.failsWith

theorem ofMembers_of_kept {members : List Member} (h : members.filterMap Member.kept? ≠ []) :
    ofMembers members =
      .ok ⟨members.filterMap Member.kept?, members.filterMap Member.skipped?⟩ :=
  ofMembers_eq_ok_iff.mpr ⟨fun _ => h, rfl⟩

theorem ofMembers_of_skipped {members : List Member} {first : Skipped} {rest : List Skipped}
    (h : members.filterMap Member.kept? = [])
    (hfirst : members.filterMap Member.skipped? = first :: rest) :
    ofMembers members = .error first.error := by
  rw [ofMembers, h, hfirst]

theorem FailsWith.ofText_eq {text : String} {e : SelectorError} (h : FailsWith (.start text) e)
    (anchor : Anchor) : ofText standard ⟨anchor, .strict, none⟩ text = .error e := by
  rcases h with h | ⟨selectors, last, h, hfinish⟩
  · exact ofText_of_readMembers_error h
  · rw [ofText_of_readMembers h, ofMembers_kept, hfinish]
    rfl

/-- How the lists under the two policies come about. -/
inductive Outcomes (anchor : Anchor) (text : String) : Prop
  | error {e : SelectorError} : read standard .skipInvalid (.start text) = .error e →
      ofText standard ⟨anchor, .skipInvalid, none⟩ text = .error e →
      ofText standard ⟨anchor, .strict, none⟩ text = .error e → Outcomes anchor text
  | same {list : SelectorList} {last : Cursor} :
      read standard .skipInvalid (.start text) = .ok (list, last) → SpaceText last.rest →
      list.skipped = [] → ofText standard ⟨anchor, .skipInvalid, none⟩ text = .ok list →
      ofText standard ⟨anchor, .strict, none⟩ text = .ok list → Outcomes anchor text
  | skipped {list : SelectorList} {last : Cursor} {first : Skipped} {rest : List Skipped} :
      read standard .skipInvalid (.start text) = .ok (list, last) → SpaceText last.rest →
      list.skipped = first :: rest →
      ofText standard ⟨anchor, .skipInvalid, none⟩ text = .ok list →
      ofText standard ⟨anchor, .strict, none⟩ text = .error first.error → Outcomes anchor text

theorem outcomes (anchor : Anchor) (text : String) : Outcomes anchor text := by
  obtain ⟨members, last, hread, hlast, houtcome⟩ := strictOutcome (.start text)
  have hfinish := finish_eq_ok_iff.mpr hlast
  have hlist : ofText standard ⟨anchor, .skipInvalid, none⟩ text = ofMembers members := by
    rw [ofText_of_readMembers hread, hfinish]
    cases ofMembers members <;> rfl
  have hresult : read standard .skipInvalid (.start text) =
      (ofMembers members).map fun list => (list, last) := by
    rw [read, hread]
    rfl
  cases houtcome with
  | @kept selectors last' hstrict hlast' =>
    rw [ofMembers_kept] at hlist hresult
    refine .same hresult hlast rfl hlist ?_
    rw [ofText_of_readMembers hstrict, ofMembers_kept, finish_eq_ok_iff.mpr hlast']
    rfl
  | @failed selectors first rest hfails =>
    generalize hmembers : selectors.map Member.kept ++ .skipped first :: rest = members
      at hlist hresult
    have hfirst : members.filterMap Member.skipped? =
        first :: rest.filterMap Member.skipped? := by
      simp [← hmembers, Member.skipped?]
    by_cases hkept : members.filterMap Member.kept? = []
    · rw [ofMembers_of_skipped hkept hfirst] at hlist hresult
      exact .error hresult hlist (hfails.ofText_eq anchor)
    · rw [ofMembers_of_kept hkept] at hlist hresult
      exact .skipped hresult hlast hfirst hlist (hfails.ofText_eq anchor)

/-- The strict list is the list that leaves out bad members, or what is wrong with the first that
is left out. A list that leaves out bad members is read to the end of the text. -/
theorem ofText_strict_eq (anchor : Anchor) (limit : Option Nat) (text : String) :
    (∀ e, ofText .standard ⟨anchor, .skipInvalid, limit⟩ text = .error e →
        ofText .standard ⟨anchor, .strict, limit⟩ text = .error e) ∧
      (∀ list, ofText .standard ⟨anchor, .skipInvalid, limit⟩ text = .ok list →
        (list.skipped = [] → ofText .standard ⟨anchor, .strict, limit⟩ text = .ok list) ∧
        ∀ first rest, list.skipped = first :: rest →
          ofText .standard ⟨anchor, .strict, limit⟩ text = .error first.error) ∧
      ∀ list last, read .standard .skipInvalid (.start text) = .ok (list, last) →
        finish .standard last = .ok () ∧ SpaceText last.rest := by
  refine and_assoc.mp ⟨?_, ?_⟩
  · rcases ofText_limit anchor limit text with ⟨e, hlimit⟩ | hlimit
    · simp [hlimit]
    · rw [hlimit, hlimit]
      cases outcomes anchor text with
      | error _ hlist hstrict => simp [hlist, hstrict]
      | same _ _ hnone hlist hstrict => simp [hlist, hstrict, hnone]
      | skipped _ _ hfirst hlist hstrict => simp [hlist, hstrict, hfirst]
  · intro list last hread
    rw [finish_eq_ok_iff, and_self]
    cases outcomes anchor text with
    | error hread' _ _ => simp [hread] at hread'
    | same hread' hlast _ _ _ | skipped hread' hlast _ _ _ =>
      obtain ⟨-, rfl⟩ := Prod.mk.inj (Except.ok.inj (hread.symm.trans hread'))
      exact hlast

end SelectorList

end SelectorPath
