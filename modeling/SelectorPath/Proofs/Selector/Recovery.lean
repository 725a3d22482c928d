import SelectorPath.Proofs.Selector.Locality
import SelectorPath.Proofs.Selector.Policies

/-!
Lists that leave out bad members. Each member stands or falls on its own: the list has for each
segment between commas what the segment gives as a text of its own
(`SelectorList.ofText_skipInvalid_eq`).
-/

namespace SelectorPath

open Text Grammar Lexicon

/-! ## Members -/

open SelectorList in
/-- The member that a segment of a text gives on its own. -/
inductive Segment.Gives (input : List Char) (segment : Segment) : Member → Prop
  | kept {selector : Selector} :
      ofText .standard .standard (String.ofList segment.text) = .ok ⟨[selector], []⟩ →
      Gives input segment (.kept selector)
  | skipped {e : SelectorError} :
      ofText .standard .standard (String.ofList segment.text) = .error e →
      segment.Holds (e.placed input segment.start).position →
      Gives input segment
        (.skipped ⟨String.ofList (trim segment.text), e.placed input segment.start⟩)

/-- The segment at a place, as a part of the text that it stands in. -/
def partAt (before : List Char) (c : Cursor) : Part :=
  ⟨before, (segmentAt c).text, (splitAtComma 0 none c.rest).2, splitAtComma_snd 0 none c.rest⟩

theorem partAt_input (before : List Char) (c : Cursor) :
    (partAt before c).input = before ++ c.rest :=
  congrArg (before ++ ·) (splitAtComma_append 0 none c.rest)

theorem partAt_segment {before : List Char} {c : Cursor} (h : c.offset = byteLength before) :
    (partAt before c).segment = segmentAt c := by
  rw [segmentAt, h]
  rfl

theorem partAt_same {before : List Char} {c : Cursor} (h : c.offset = byteLength before) :
    (partAt before c).Same (.start (String.ofList (segmentAt c).text)) c := by
  refine ⟨⟨[], ?_, ?_⟩, ?_⟩
  · exact ⟨by simp [partAt, Cursor.start], by simp [Cursor.start, byteLength]⟩
  · exact ⟨splitAtComma_append 0 none c.rest, h⟩
  · have hreaches := reaches_splitAtComma c.rest
    simpa [partAt, segmentAt, Cursor.start] using hreaches

namespace SelectorList

/-- No comma follows the selector in a segment. -/
theorem token_comma_alone {c d : Cursor} {selector : Selector}
    (h : Selector.read standard (.start (String.ofList (segmentAt c).text)) =
      .ok (selector, d)) : standard.token .comma d = none := by
  obtain ⟨s, hts, hs, -⟩ := Selector.read_sound h
  have hsegment : (segmentAt c).text = s ++ d.rest := by
    simpa [Cursor.start] using hts.rest
  have hcut : splitAtComma 0 none c.rest = splitAtComma 0 none
      (s ++ (d.rest ++ (splitAtComma 0 none c.rest).2)) := by
    rw [← List.append_assoc, ← hsegment, segmentAt, splitAtComma_append]
  refine token_eq_none fun text after htext ht => ?_
  obtain ⟨w, rfl, hw⟩ := htext
  have hd : d.rest = w ++ ',' :: after.rest := by
    rw [ht.rest, List.append_assoc, List.singleton_append]
  rw [hs.balanced, hd, List.append_assoc, List.cons_append, splitAtComma_spaced hw] at hcut
  have hlength := congrArg List.length (hsegment.symm.trans (congrArg Prod.fst hcut))
  simp [hd] at hlength

variable {part : Part}

/-- A member can end at a place in the part alone if and only if it can end there in the text. -/
theorem atBoundary_local {c d : Cursor} (h : part.Same c d) :
    atBoundary standard d = atBoundary standard c := by
  rw [atBoundary_eq, atBoundary_eq, Cursor.atEnd, Cursor.atEnd, h.skip_spaces.rest]
  cases (standard.skip .spaces c).rest with
  | nil => rcases part.ends with htail | ⟨t, htail⟩ <;> simp [htail]
  | cons x r => rfl

theorem trailing_local {c d : Cursor} (h : part.Same c d) :
    trailing standard d = (trailing standard c).placed part.input part.segment.start := by
  rw [trailing, trailing, SelectorError.placed, h.skip_spaces.dropBytes_input,
    h.skip_spaces.offset]

theorem ofText_standard_of_read {text : String} {selector : Selector} {d : Cursor}
    (hread : Selector.read standard (.start text) = .ok (selector, d))
    (hcomma : standard.token .comma d = none) :
    ofText standard .standard text = (finish standard d).map fun _ => ⟨[selector], []⟩ := by
  have hmembers := readMembers_strict_last hread (comma_eq_none hcomma)
  rw [Options.standard, ofText_of_readMembers hmembers, ofMembers_kept]
  rfl

/-- What is read at the start of a segment is what the segment gives. -/
theorem readMember_gives {before : List Char} {c d : Cursor} {member : Member}
    (hoffset : c.offset = byteLength before)
    (h : readMember standard .skipInvalid c = .ok (member, d)) :
    (segmentAt c).Gives (before ++ c.rest) member := by
  have hstart := partAt_same hoffset
  rw [← partAt_input, ← partAt_segment hoffset]
  obtain ⟨e, halone, hread, hholds⟩ | ⟨⟨selector, c'⟩, ⟨_, d'⟩, halone, hread, rfl, hsame⟩ :=
    (Selector.read_local _ _ hstart).cases
  · obtain ⟨rfl, -⟩ := Prod.mk.inj (Except.ok.inj (h.symm.trans (readMember_of_error hread)))
    exact .skipped (ofText_of_readMembers_error (readMembers_strict_error halone)) hholds
  · -- The selector is the same, and what follows it in the segment decides.
    have hcomma := token_comma_alone halone
    have hlist := ofText_standard_of_read halone hcomma
    have hboundary := atBoundary_local hsame
    cases boundary c' with
    | comma _ _ htoken _ => simp [hcomma] at htoken
    | spaces hspaces hend =>
      obtain ⟨rfl, -⟩ := Prod.mk.inj (Except.ok.inj
        (h.symm.trans (readMember_of_boundary hread (hboundary.trans hend))))
      rw [finish_eq_ok_iff.mpr hspaces] at hlist
      exact .kept hlist
    | inside _ hinside hfinish =>
      obtain ⟨rfl, -⟩ := Prod.mk.inj (Except.ok.inj
        (h.symm.trans (readMember_of_inside hread (hboundary.trans hinside))))
      rw [hfinish] at hlist
      rw [trailing_local hsame]
      exact .skipped hlist hsame.skip_spaces.holds

/-! ## Lists -/

/-- The segments are cut where the members end. -/
theorem segments_of_readMember {c d : Cursor} {member : Member}
    (h : readMember standard .skipInvalid c = .ok (member, d)) :
    (SpaceText d.rest → segments c = [segmentAt c]) ∧
      ∀ comma e, Spaced ',' comma → d.Takes comma e →
        segments c = segmentAt c :: segments e := by
  obtain ⟨-, s, hts, hcut⟩ := readMember_takes h
  constructor
  · intro hspaces
    rw [splitAtComma_spaces hspaces] at hcut
    exact segments_last (congrArg Prod.snd hcut)
  · rintro _ e ⟨w, rfl, hw⟩ hte
    have hd : d.rest = w ++ ',' :: e.rest := by
      rw [hte.rest, List.append_assoc, List.singleton_append]
    rw [hd, splitAtComma_spaced hw] at hcut
    have htext : (segmentAt c).text = s ++ w := congrArg Prod.fst hcut
    refine segments_cons ?_
    rw [htext, List.append_assoc]
    exact hts.trans hte

theorem readMembers_gives (input : List Char) (c : Cursor) :
    ∃ members last, readMembers standard .skipInvalid c = .ok (members, last) ∧
      SpaceText last.rest ∧ ∀ before, (⟨0, input⟩ : Cursor).Takes before c →
        List.Forall₂ (Segment.Gives input) (segments c) members := by
  have hgives : ∀ c member d before, readMember standard .skipInvalid c = .ok (member, d) →
      (⟨0, input⟩ : Cursor).Takes before c → (segmentAt c).Gives input member := by
    intro c member d before h hbefore
    obtain rfl : input = before ++ c.rest := hbefore.rest
    exact readMember_gives (by simpa using hbefore.offset) h
  refine readMembers_skipInvalid (P := fun c members => ∀ before,
    (⟨0, input⟩ : Cursor).Takes before c →
      List.Forall₂ (Segment.Gives input) (segments c) members) ?_ ?_ c
  · intro c member d h hspaces before hbefore
    rw [(segments_of_readMember h).1 hspaces]
    exact .cons (hgives c member d before h hbefore) .nil
  · intro c member d comma e members h hcomma htc ih before hbefore
    rw [(segments_of_readMember h).2 comma e hcomma htc]
    obtain ⟨-, s, hts, -⟩ := readMember_takes h
    exact .cons (hgives c member d before h hbefore)
      (ih _ (hbefore.trans (hts.trans htc)))

/-- A list that leaves out bad members has the selectors that its segments give on their own, and
what is wrong with the other segments, both in the order of the text. If no segment gives a
selector, what is wrong with the first is wrong with the list. -/
theorem ofText_skipInvalid_eq (anchor : Anchor) (text : String) :
    ∃ members, List.Forall₂ (Segment.Gives text.toList) (segments (.start text)) members ∧
      (members.filterMap Member.kept?).length + (members.filterMap Member.skipped?).length =
        (segments (.start text)).length ∧
      (members.filterMap Member.kept? ≠ [] →
        ofText .standard ⟨anchor, .skipInvalid, none⟩ text =
          .ok ⟨members.filterMap Member.kept?, members.filterMap Member.skipped?⟩) ∧
      (members.filterMap Member.kept? = [] → ∃ first rest, members = .skipped first :: rest ∧
        ofText .standard ⟨anchor, .skipInvalid, none⟩ text = .error first.error) := by
  obtain ⟨members, last, hread, hlast, hgives⟩ := readMembers_gives text.toList (.start text)
  have hgives := hgives [] (.refl _)
  have hlist : ofText .standard ⟨anchor, .skipInvalid, none⟩ text = ofMembers members := by
    rw [ofText_of_readMembers hread, finish_eq_ok_iff.mpr hlast]
    cases ofMembers members <;> rfl
  refine ⟨members, hgives, ?_, fun hkept => hlist.trans (ofMembers_of_kept hkept), fun hkept => ?_⟩
  · rw [kept_add_skipped, hgives.length_eq]
  · cases members with
    | nil =>
      have hlength := hgives.length_eq
      rw [segments] at hlength
      simp at hlength
    | cons first rest =>
      cases first with
      | kept selector => simp [Member.kept?] at hkept
      | skipped first =>
        have hfirst : (Member.skipped first :: rest).filterMap Member.skipped? =
            first :: rest.filterMap Member.skipped? := List.filterMap_cons_some rfl
        exact ⟨first, rest, rfl, hlist.trans (ofMembers_of_skipped hkept hfirst)⟩

end SelectorList

end SelectorPath
