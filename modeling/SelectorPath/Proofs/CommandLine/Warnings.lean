import SelectorPath.Proofs.CommandLine.Independence
import SelectorPath.Proofs.Selector.Recovery

/-!
Warnings about the members that a list leaves out. A log gives every warning once, in the order in
which they first occur (`WarningLog.warnAll_eq`). But the text of an error ends with its position
(`SelectorError.exists_message_eq`), and the positions of the errors in a list increase
(`SelectorList.skipped_positions`). So no two warnings of a list are the same, and a member that is
repeated has as many lines as it has places (`Session.stderr_next_skipped`).
-/

namespace SelectorPath

open Text Grammar Lexicon

/-! ## The first of each kind -/

/-- Of the members of a list with the same key, the first. -/
def firsts {α β : Type} [DecidableEq β] (key : α → β) : List α → List α
  | [] => []
  | a :: rest => a :: (firsts key rest).filter fun b => key b ≠ key a

section Firsts

variable {α β : Type} [DecidableEq β] {key : α → β}

theorem firsts_sublist (key : α → β) (l : List α) : (firsts key l).Sublist l := by
  induction l with
  | nil => exact .slnil
  | cons a rest ih => exact (List.filter_sublist.trans ih).cons_cons a

theorem firsts_nodup (l : List α) : ((firsts key l).map key).Nodup := by
  induction l with
  | nil => exact .nil
  | cons a rest ih =>
    rw [firsts, List.map_cons, List.nodup_cons]
    constructor
    · simp
    · exact ih.sublist (List.filter_sublist.map key)

theorem firsts_eq_self_iff {l : List α} : firsts key l = l ↔ (l.map key).Nodup := by
  constructor
  · intro h
    rw [← h]
    exact firsts_nodup l
  · intro h
    induction l with
    | nil => rfl
    | cons a rest ih =>
      obtain ⟨ha, hrest⟩ := List.nodup_cons.mp h
      rw [firsts, ih hrest, List.filter_eq_self.mpr]
      intro b hb
      have hne : key b ≠ key a := fun heq => ha (heq ▸ List.mem_map_of_mem hb)
      simpa using hne

end Firsts

/-- Lines are not empty, so some of them make up all only if none is left out. -/
theorem sublist_eq_of_join_eq {l l' : List String} (h : l.Sublist l') (hne : ∀ s ∈ l', s ≠ "")
    (hjoin : String.join l = String.join l') : l = l' := by
  have hlength : ∀ {l l' : List String}, l.Sublist l' →
      (String.join l).length ≤ (String.join l').length := by
    intro l l' h
    induction h with
    | slnil => exact Nat.le_refl _
    | cons s _ ih => simp only [String.join_cons, String.length_append]; omega
    | cons_cons s _ ih => simp only [String.join_cons, String.length_append]; omega
  induction h with
  | slnil => rfl
  | @cons l l' s hsub ih =>
    have hle := hlength hsub
    have hs : s.length ≠ 0 := by simpa using hne s (by simp)
    rw [hjoin, String.join_cons, String.length_append] at hle
    omega
  | @cons_cons l l' s hsub ih =>
    rw [String.join_cons, String.join_cons, String.append_right_inj] at hjoin
    rw [ih (fun t ht => hne t (by simp [ht])) hjoin]

/-! ## The log -/

theorem Warning.line_ne_empty (w : Warning) : w.line ≠ "" := by
  intro h
  have hlength : (("\x1b[33m[cssxpath " ++ w.component ++ "] ⚠ " ++ w.message) ++ "\x1b[39m\n").length =
      0 := congrArg String.length h
  rw [String.length_append] at hlength
  have hend : "\x1b[39m\n".length = 6 := rfl
  omega

namespace WarningLog

/-- A log gives the warnings that it does not have yet, each at its first place. -/
theorem warnAll_eq (log : WarningLog) (warnings : List Warning) :
    (log.warnAll warnings).2 =
      String.join (((firsts id warnings).filter fun w => !log.has w).map Warning.line) := by
  induction warnings generalizing log with
  | nil => rfl
  | cons w rest ih =>
    rw [warnAll, firsts, warn]
    cases hw : log.has w with
    | true =>
      have hfilter : (firsts id rest).filter (fun v => !log.has v) =
          ((firsts id rest).filter fun v => id v ≠ id w).filter fun v => !log.has v := by
        rw [List.filter_filter]
        refine List.filter_congr fun v _ => ?_
        by_cases hv : v = w
        · simp [hv, hw]
        · simp [hv]
      simp [ih, hw, hfilter]
    | false =>
      have hfilter : (firsts id rest).filter (fun v => !(⟨w :: log.given⟩ : WarningLog).has v) =
          ((firsts id rest).filter fun v => id v ≠ id w).filter fun v => !log.has v := by
        rw [List.filter_filter]
        refine List.filter_congr fun v _ => ?_
        by_cases hv : v = w <;> simp [has, hv]
      simp [ih, hw, hfilter]

end WarningLog

/-! ## The texts of errors -/

/-- The number after the last blank of a text. -/
theorem eq_of_append_toDigits {s t : List Char} {m n : Nat}
    (h : s ++ ' ' :: Nat.toDigits 10 m = t ++ ' ' :: Nat.toDigits 10 n) : m = n := by
  have hreverse := congrArg List.reverse h
  simp only [List.reverse_append, List.reverse_cons, List.append_assoc,
    List.singleton_append] at hreverse
  have hnumeral : ∀ k, ∀ c ∈ (Nat.toDigits 10 k).reverse, XPath.Syntax.isNumeral c :=
    fun k c hc => XPath.isNumeral_of_mem_toDigits (List.mem_reverse.mp hc)
  have hblank : ∀ r : List Char, headIs XPath.Syntax.isNumeral (' ' :: r) = false := fun _ => rfl
  have hdigits := (run_unique hreverse (hnumeral m) (hnumeral n) (hblank _) (hblank _)).1
  rw [List.reverse_inj] at hdigits
  have hvalue := congrArg natural? hdigits
  rw [XPath.natural?_toDigits, XPath.natural?_toDigits] at hvalue
  exact Option.some.inj hvalue

namespace SelectorError

/-- The text of an error ends with its position. -/
theorem exists_message_eq (e : SelectorError) :
    ∃ front, e.message.toList = front ++ ' ' :: Nat.toDigits 10 e.position := by
  have hends (front words : String) (n : Nat) (hblank : words.toList.getLast? = some ' ') :
      ∃ s, (front ++ words ++ toString n).toList = s ++ ' ' :: Nat.toDigits 10 n := by
    obtain ⟨w, hw⟩ := List.getLast?_eq_some_iff.mp hblank
    exact ⟨front.toList ++ w, by simp [hw]⟩
  cases e with
  | unexpected position expected => exact hends ("expected " ++ expected.text) " at offset " _ rfl
  | unsupportedPseudoClass position name =>
    exact hends ("unsupported pseudo-class `:" ++ name) "` at offset " _ rfl
  | unsupportedOperator position operator =>
    exact hends ("unsupported attribute operator `" ++ operator) "` at offset " _ rfl
  | nestedTooDeep position limit =>
    exact hends ("`:not()` nested more than " ++ toString limit) " levels deep at offset " _ rfl
  | trailing position rest =>
    exact hends ("unexpected trailing input `" ++ rest) "` at offset " _ rfl
  | tooLong length limit =>
    exact hends ("selector is " ++ toString length) " bytes long, limit is " _ rfl

end SelectorError

/-- Warnings about errors at different positions differ. -/
theorem CommandLine.position_eq_of_skippedWarning_eq {m n : Skipped}
    (h : skippedWarning m = skippedWarning n) : m.error.position = n.error.position := by
  have htext (member : Skipped) : ∃ front, (skippedWarning member).message.toList =
      front ++ ' ' :: Nat.toDigits 10 member.error.position := by
    obtain ⟨front, hfront⟩ := member.error.exists_message_eq
    refine ⟨("skipped selector `" ++ member.text ++ "`: ").toList ++ front, ?_⟩
    rw [List.append_assoc, ← hfront, ← String.toList_append]
    rfl
  obtain ⟨front, hm⟩ := htext m
  obtain ⟨front', hn⟩ := htext n
  rw [h] at hm
  exact eq_of_append_toDigits (hm.symm.trans hn)

/-! ## The positions of errors -/

/-- One segment ends before the next one starts. -/
def Segment.Before (first second : Segment) : Prop :=
  first.start + byteLength first.text < second.start

theorem segments_cases (c : Cursor) : segments c = [segmentAt c] ∨
    ∃ d, c.Takes ((segmentAt c).text ++ [',']) d ∧ segments c = segmentAt c :: segments d := by
  rcases splitAtComma_snd 0 none c.rest with hend | ⟨t, ht⟩
  · exact .inl (segments_last hend)
  · have hcut := splitAtComma_append 0 none c.rest
    have htakes : c.Takes ((segmentAt c).text ++ [','])
        (c.advance ((segmentAt c).text ++ [',']) t) := by
      refine .advance c ?_
      rw [← hcut, ht, List.append_assoc]
      rfl
    exact .inr ⟨_, htakes, segments_cons htakes⟩

theorem segments_pairwise (c : Cursor) :
    (∀ segment ∈ segments c, c.offset ≤ segment.start) ∧ (segments c).Pairwise Segment.Before := by
  induction hn : c.rest.length using Nat.strongRecOn generalizing c with
  | ind n ih =>
  rcases segments_cases c with hlast | ⟨d, ht, hcons⟩
  · rw [hlast]
    exact ⟨by simp [segmentAt], List.pairwise_singleton _ _⟩
  · obtain ⟨hstart, hpairwise⟩ := ih _ (hn ▸ ht.length_lt (by simp)) d rfl
    have hbefore : ∀ segment ∈ segments d, (segmentAt c).Before segment := by
      intro segment hsegment
      have hoffset := ht.offset
      have hle := hstart segment hsegment
      have hcomma : 0 < byteLength [','] := by decide
      rw [byteLength_append] at hoffset
      change c.offset + byteLength (segmentAt c).text < segment.start
      omega
    rw [hcons]
    refine ⟨List.forall_mem_cons.mpr ⟨Nat.le_refl _, fun segment hsegment => ?_⟩,
      List.pairwise_cons.mpr ⟨hbefore, hpairwise⟩⟩
    have hlt : c.offset + byteLength (segmentAt c).text < segment.start := hbefore segment hsegment
    omega

namespace SelectorList

/-- The errors of a list lie in different segments, so their positions increase. -/
theorem positions_pairwise {input : List Char} {parts : List Segment} {members : List Member}
    (h : List.Forall₂ (Segment.Gives input) parts members) (hparts : parts.Pairwise Segment.Before) :
    (∀ member ∈ members.filterMap Member.skipped?, ∃ segment ∈ parts,
      segment.Holds member.error.position) ∧
    (members.filterMap Member.skipped?).Pairwise
      fun m n => m.error.position < n.error.position := by
  induction h with
  | nil => simp
  | @cons segment member parts members hgives _ ih =>
    obtain ⟨hbefore, hparts⟩ := List.pairwise_cons.mp hparts
    obtain ⟨hholds, hpairwise⟩ := ih hparts
    have hlater : ∀ member ∈ members.filterMap Member.skipped?, ∃ other ∈ segment :: parts,
        other.Holds member.error.position := by
      intro member hmember
      obtain ⟨other, hother, hposition⟩ := hholds member hmember
      exact ⟨other, List.mem_cons_of_mem segment hother, hposition⟩
    cases hgives with
    | kept => exact ⟨hlater, hpairwise⟩
    | @skipped e _ hheld =>
      simp only [List.filterMap_cons, Member.skipped?]
      refine ⟨List.forall_mem_cons.mpr ⟨⟨segment, by simp, hheld⟩, hlater⟩,
        List.pairwise_cons.mpr ⟨fun later hlater => ?_, hpairwise⟩⟩
      obtain ⟨other, hother, hposition⟩ := hholds later hlater
      have hlt : segment.start + byteLength segment.text < other.start := hbefore other hother
      exact Nat.lt_of_le_of_lt hheld.2 (Nat.lt_of_lt_of_le hlt hposition.1)

/-- The errors of a list stand in the order of their positions, and no two at the same. -/
theorem skipped_positions {anchor : Anchor} {limit : Option Nat} {text : String}
    {list : SelectorList} (h : ofText standard ⟨anchor, .skipInvalid, limit⟩ text = .ok list) :
    list.skipped.Pairwise fun m n => m.error.position < n.error.position := by
  obtain ⟨members, last, hread, hlast, hgives⟩ := readMembers_gives text.toList (.start text)
  have hmembers : ofMembers members = .ok list := by
    rcases ofText_limit anchor limit text with ⟨e, he⟩ | hlimit
    · simp [he .skipInvalid] at h
    · rw [hlimit, ofText_of_readMembers hread, finish_eq_ok_iff.mpr hlast] at h
      rw [← h]
      cases ofMembers members <;> rfl
  obtain ⟨-, rfl⟩ := ofMembers_eq_ok_iff.mp hmembers
  exact (positions_pairwise (hgives [] (.refl _)) (segments_pairwise (.start text)).2).2

end SelectorList

/-! ## What is printed -/

inductive SelectorError.Kind where
  | unexpected
  | unsupportedPseudoClass
  | unsupportedOperator
  | nestedTooDeep
  | trailing
  | tooLong
  deriving DecidableEq, Repr

/-- What kind of error it is, wherever it stands. -/
def SelectorError.kind : SelectorError → SelectorError.Kind
  | .unexpected _ _ => .unexpected
  | .unsupportedPseudoClass _ _ => .unsupportedPseudoClass
  | .unsupportedOperator _ _ => .unsupportedOperator
  | .nestedTooDeep _ _ => .nestedTooDeep
  | .trailing _ _ => .trailing
  | .tooLong _ _ => .tooLong

/-- What makes a member the same as one before it: its text and the kind of its error. -/
def Skipped.key (member : Skipped) : String × SelectorError.Kind := (member.text, member.error.kind)

namespace CommandLine

/-- The line about a member that was left out. -/
def skippedLine (member : Skipped) : String := (skippedWarning member).line

theorem skippedWarnings_nodup {settings : Settings} (hskip : settings.skipInvalid = true)
    {selector : String} {list : SelectorList}
    (h : SelectorList.ofText .standard settings.options selector = .ok list) :
    (list.skipped.map skippedWarning).Nodup := by
  have hpositions : list.skipped.Pairwise fun m n => m.error.position < n.error.position := by
    rw [Settings.options, hskip] at h
    exact SelectorList.skipped_positions h
  refine List.pairwise_map.mpr (hpositions.imp fun hlt heq => ?_)
  exact Nat.ne_of_lt hlt (position_eq_of_skippedWarning_eq heq)

/-- There is one line for each key if and only if no key is repeated. -/
theorem join_skippedLine_eq_iff (skipped : List Skipped) :
    String.join (skipped.map skippedLine) =
        String.join ((firsts Skipped.key skipped).map skippedLine) ↔
      (skipped.map Skipped.key).Nodup := by
  rw [← firsts_eq_self_iff]
  constructor
  · intro hjoin
    have hsublist := firsts_sublist Skipped.key skipped
    have hlines := sublist_eq_of_join_eq (hsublist.map skippedLine)
      (List.forall_mem_map.mpr fun member _ => (skippedWarning member).line_ne_empty) hjoin.symm
    refine hsublist.eq_of_length ?_
    simpa using congrArg List.length hlines
  · intro hall
    rw [hall]

namespace Session

/-- The warnings of a selector are given once each, whatever was given before. -/
theorem stderr_next_eq (settings : Settings) (session : Session) {selector : String}
    {list : SelectorList} (h : SelectorList.ofText .standard settings.options selector = .ok list) :
    (session.next settings selector).stderr = session.stderr ++
      String.join ((firsts id (list.skipped.map skippedWarning)).map Warning.line) := by
  have hprinted := WarningLog.warnAll_eq .empty (list.skipped.map skippedWarning)
  have hall : ((firsts id (list.skipped.map skippedWarning)).filter
      fun w => !WarningLog.empty.has w) = firsts id (list.skipped.map skippedWarning) :=
    List.filter_eq_self.mpr fun w _ => rfl
  rw [hall] at hprinted
  simp only [next, h, WarningLog.clear, hprinted]

theorem stderr_next_all {settings : Settings} (hskip : settings.skipInvalid = true)
    (session : Session) {selector : String} {list : SelectorList}
    (h : SelectorList.ofText .standard settings.options selector = .ok list) :
    (session.next settings selector).stderr =
      session.stderr ++ String.join (list.skipped.map skippedLine) := by
  have hfirsts : firsts id (list.skipped.map skippedWarning) = list.skipped.map skippedWarning :=
    firsts_eq_self_iff.mpr (by simpa using skippedWarnings_nodup hskip h)
  rw [stderr_next_eq settings session h, hfirsts, List.map_map]
  rfl

/-- Every member that is left out has a line of its own, in the order of the text, also where it
repeats one before it: no two warnings are the same. So there is one line for each text and kind of
error if and only if none is repeated. -/
theorem stderr_next_skipped {settings : Settings} (hskip : settings.skipInvalid = true)
    (session : Session) {selector : String} {list : SelectorList}
    (h : SelectorList.ofText .standard settings.options selector = .ok list) :
    (list.skipped.map skippedWarning).Nodup ∧
      (session.next settings selector).stderr =
        session.stderr ++ String.join (list.skipped.map skippedLine) ∧
      ((session.next settings selector).stderr =
          session.stderr ++ String.join ((firsts Skipped.key list.skipped).map skippedLine) ↔
        (list.skipped.map Skipped.key).Nodup) := by
  have hstderr := stderr_next_all hskip session h
  refine ⟨skippedWarnings_nodup hskip h, hstderr, ?_⟩
  rw [hstderr, String.append_right_inj]
  exact join_skippedLine_eq_iff list.skipped

/-- A list with two bad members that differ. -/
theorem stderr_next_skipped_twice :
    let settings : Settings := ⟨false, true, false, none⟩
    let skipped : List Skipped :=
      [⟨":x", .unsupportedPseudoClass 2 "x"⟩, ⟨"[a!=b]", .unsupportedOperator 7 "!="⟩]
    SelectorList.ofText .standard settings.options "p,:x,[a!=b]" =
        .ok ⟨[⟨[⟨.descendant, ⟨some (.named "p"), []⟩⟩]⟩], skipped⟩ ∧
      (start.next settings "p,:x,[a!=b]").stderr =
        "" ++ String.join ((firsts Skipped.key skipped).map skippedLine) := by
  intro settings skipped
  have h : SelectorList.ofText .standard settings.options "p,:x,[a!=b]" =
      .ok ⟨[⟨[⟨.descendant, ⟨some (.named "p"), []⟩⟩]⟩], skipped⟩ := by
    cbv
  obtain ⟨-, -, honce⟩ := stderr_next_skipped rfl start h
  exact ⟨h, honce.mpr (by decide)⟩

/-- A bad member that is repeated has two lines, and not one. -/
theorem stderr_next_repeats_line :
    let settings : Settings := ⟨false, true, false, none⟩
    let skipped : List Skipped :=
      [⟨":x", .unsupportedPseudoClass 2 "x"⟩, ⟨":x", .unsupportedPseudoClass 5 "x"⟩]
    SelectorList.ofText .standard settings.options "p,:x,:x" =
        .ok ⟨[⟨[⟨.descendant, ⟨some (.named "p"), []⟩⟩]⟩], skipped⟩ ∧
      (start.next settings "p,:x,:x").stderr ≠
        "" ++ String.join ((firsts Skipped.key skipped).map skippedLine) := by
  intro settings skipped
  have h : SelectorList.ofText .standard settings.options "p,:x,:x" =
      .ok ⟨[⟨[⟨.descendant, ⟨some (.named "p"), []⟩⟩]⟩], skipped⟩ := by
    cbv
  refine ⟨h, fun honce => ?_⟩
  have hstderr := stderr_next_all rfl start h
  rw [hstderr, stderr_start, String.append_right_inj, join_skippedLine_eq_iff] at honce
  exact absurd honce (by decide)

end Session

end CommandLine

end SelectorPath
