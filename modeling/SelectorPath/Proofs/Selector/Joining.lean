import SelectorPath.Proofs.Selector.Recognition

/-!
Lists that are joined by commas. The grammar has the joined text for the selectors of all lists
(`Grammar.ListText.join`), so that the joined text compiles to the union of what the lists compile
to (`compile_intercalate`).
-/

namespace SelectorPath

open Text Grammar Lexicon

/-! ## The grammar -/

namespace Grammar

variable {s t v w : List Char}

theorem SpaceText.append (hv : SpaceText v) (hw : SpaceText w) : SpaceText (v ++ w) := by
  intro c hc
  rcases List.mem_append.mp hc with hc | hc
  · exact hv c hc
  · exact hw c hc

theorem SpaceText.spaced {sign : Char} (hv : SpaceText v) (hs : Spaced sign s) :
    Spaced sign (v ++ s) := by
  obtain ⟨w, rfl, hw⟩ := hs
  exact ⟨v ++ w, by rw [List.append_assoc], hv.append hw⟩

/-- White space in front of a compound belongs to it. -/
theorem CompoundText.space {compound : Compound} (hv : SpaceText v) (h : CompoundText s compound) :
    CompoundText (v ++ s) compound := by
  obtain ⟨u, e, t, rfl, hu, he, ht, hn⟩ := h
  exact ⟨v ++ u, e, t, by simp only [List.append_assoc], hv.append hu, he, ht, hn⟩

theorem SelectorText.space {selector : Selector} (hv : SpaceText v) (h : SelectorText s selector) :
    SelectorText (v ++ s) selector := by
  obtain @⟨s, t, u, combinator, compound, rest, hs, hcompound, hrest⟩ := h
  cases hs with
  | absent => simpa using SelectorText.intro .absent (hcompound.space hv) hrest
  | child hs => simpa using SelectorText.intro (.child (hv.spaced hs)) hcompound hrest

theorem MembersText.space {selectors : List Selector} (hv : SpaceText v)
    (h : MembersText s selectors) : MembersText (v ++ s) selectors := by
  cases h with
  | last hs => exact .last (hs.space hv)
  | cons hs hcomma ht => simpa using MembersText.cons (hs.space hv) hcomma ht

theorem MembersText.append {comma : List Char} {first rest : List Selector}
    (hs : MembersText s first) (hcomma : Spaced ',' comma) (ht : MembersText t rest) :
    MembersText (s ++ comma ++ t) (first ++ rest) := by
  induction hs with
  | last hs => exact .cons hs hcomma ht
  | cons hs hfirst _ ih => simpa using MembersText.cons hs hfirst ih

theorem MembersText.ne_nil {selectors : List Selector} (h : MembersText s selectors) :
    selectors ≠ [] := by
  cases h <;> simp

/-- White space at the end of the first list goes to the comma, and white space after the comma
to the second list. -/
theorem ListText.join {first rest : List Selector} (hs : ListText s first) (hw : SpaceText w)
    (ht : ListText t rest) : ListText (s ++ ',' :: (w ++ t)) (first ++ rest) := by
  obtain ⟨s, v, rfl, hs, hv⟩ := hs
  obtain ⟨t, u, rfl, ht, hu⟩ := ht
  refine ⟨s ++ (v ++ [',']) ++ (w ++ t), u, by simp, ?_, hu⟩
  exact hs.append ⟨v, rfl, hv⟩ (ht.space hw)

end Grammar

/-! ## Compiling -/

namespace SelectorList

theorem Accepted.ne_nil {s : List Char} {selectors : List Selector} (h : Accepted s selectors) :
    selectors ≠ [] := by
  obtain ⟨t, w, -, ht, -⟩ := h.text
  exact ht.ne_nil

theorem Accepted.join {s t w : List Char} {first rest : List Selector} (hs : Accepted s first)
    (hw : SpaceText w) (ht : Accepted t rest) :
    Accepted (s ++ ',' :: (w ++ t)) (first ++ rest) where
  text := hs.text.join hw ht.text
  bounded selector hselector := by
    rcases List.mem_append.mp hselector with hmem | hmem
    · exact hs.bounded selector hmem
    · exact ht.bounded selector hmem

theorem compile_strict_iff {anchor : Anchor} {text result : String} :
    compile .standard ⟨anchor, .strict, none⟩ text = .ok result ↔
      ∃ selectors, Accepted text.toList selectors ∧ xpath anchor selectors = result := by
  unfold compile
  rw [bind_eq_ok_iff]
  constructor
  · rintro ⟨list, hlist, hresult⟩
    exact ⟨list.selectors, (ofText_strict_iff.mp hlist).1, Except.ok.inj hresult⟩
  · rintro ⟨selectors, haccepted, rfl⟩
    exact ⟨⟨selectors, []⟩, ofText_strict_iff.mpr ⟨haccepted, rfl⟩, rfl⟩

theorem xpath_append {anchor : Anchor} {first rest : List Selector} (hfirst : first ≠ [])
    (hrest : rest ≠ []) :
    xpath anchor (first ++ rest) = xpath anchor first ++ " | " ++ xpath anchor rest := by
  rw [xpath, XPath.renderUnion, List.map_append, List.map_append]
  exact String.intercalate_append_of_ne_nil (by simpa using hfirst) (by simpa using hrest)

end SelectorList

/-- Lists that compile on their own, joined by commas, compile to the union of their results. -/
theorem compile_intercalate (anchor : Anchor) {separator : String}
    (hseparator : separator = "," ∨ separator = ", ") {members : List (String × String)}
    (hne : members ≠ [])
    (h : ∀ member ∈ members, compile .standard ⟨anchor, .strict, none⟩ member.1 = .ok member.2) :
    compile .standard ⟨anchor, .strict, none⟩ (separator.intercalate (members.map Prod.fst)) =
      .ok (" | ".intercalate (members.map Prod.snd)) := by
  obtain ⟨w, hw, hcomma⟩ : ∃ w, SpaceText w ∧ separator.toList = ',' :: w := by
    rcases hseparator with rfl | rfl
    · exact ⟨[], by simp [SpaceText], rfl⟩
    · exact ⟨[' '], by simp only [SpaceText, List.mem_singleton, forall_eq]; decide, rfl⟩
  induction members with
  | nil => exact absurd rfl hne
  | cons first rest ih =>
    obtain ⟨hfirst, hothers⟩ := List.forall_mem_cons.mp h
    cases rest with
    | nil => simpa using hfirst
    | cons second rest =>
      have hcons (sign : String) (part : String × String → String) :
          sign.intercalate ((first :: second :: rest).map part) =
            part first ++ sign ++ sign.intercalate ((second :: rest).map part) :=
        String.intercalate_cons_of_ne_nil (by simp)
      obtain ⟨selectors, haccepted, hresult⟩ := SelectorList.compile_strict_iff.mp hfirst
      obtain ⟨others, hothersAccepted, hothersResult⟩ :=
        SelectorList.compile_strict_iff.mp (ih (List.cons_ne_nil _ _) hothers)
      refine SelectorList.compile_strict_iff.mpr ⟨selectors ++ others, ?_, ?_⟩
      · have hjoin := haccepted.join hw hothersAccepted
        rw [hcons, String.toList_append, String.toList_append, hcomma]
        simpa using hjoin
      · rw [SelectorList.xpath_append haccepted.ne_nil hothersAccepted.ne_nil, hresult,
          hothersResult, hcons]

/-- A list with white space around its members, a selector with a sign at its start, and a value
with a comma in it. -/
theorem compile_intercalate_three :
    compile .standard ⟨.document, .strict, none⟩
        (", ".intercalate [" a , b ", ">c", "[d='x,y']"]) =
      .ok (" | ".intercalate
        ["/descendant-or-self::*/child::*[self::a] | /descendant-or-self::*/child::*[self::b]",
         "/child::*[self::c]", "/descendant-or-self::*/child::*[@d=\"x,y\"]"]) := by
  have h : ∀ member ∈
      [(" a , b ",
        "/descendant-or-self::*/child::*[self::a] | /descendant-or-self::*/child::*[self::b]"),
       (">c", "/child::*[self::c]"),
       ("[d='x,y']", "/descendant-or-self::*/child::*[@d=\"x,y\"]")],
      compile .standard ⟨.document, .strict, none⟩ member.1 = .ok member.2 := by
    refine List.forall_mem_cons.mpr ⟨by cbv, List.forall_mem_cons.mpr ⟨by cbv, ?_⟩⟩
    exact List.forall_mem_singleton.mpr (by cbv)
  have hjoined := compile_intercalate .document (.inr rfl) (List.cons_ne_nil _ _) h
  simpa only [List.map_cons, List.map_nil] using hjoined

end SelectorPath
