import SelectorPath.Proofs.Selector.Soundness

/-!
The readers of selectors lose nothing of the grammar. They take the longest token at each
place and look at the signs of combinators before white space, so each statement has a
condition on the text that follows: a compound ends where no name and no qualifier goes on,
and a selector ends where the text ends or a comma comes, with white space before it or not.
-/

namespace SelectorPath

open Text Grammar Lexicon

/-! ## What starts and what ends a compound -/

namespace Text

/-- The characters that qualifiers start with. -/
def opensQualifier (c : Char) : Bool := c == '.' || c == '#' || c == '[' || c == ':'

/-- The characters that compounds start with after white space. -/
def opensCompound (c : Char) : Bool := opensQualifier c || c == '*' || isNameStart c

theorem opensQualifier_cases {c : Char} (h : opensQualifier c) :
    c = '.' ∨ c = '#' ∨ c = '[' ∨ c = ':' := by
  simpa [opensQualifier, or_assoc] using h

theorem opensQualifier_apart {c : Char} (h : opensQualifier c) :
    isNamePart c = false ∧ isSpace c = false ∧ isNameStart c = false ∧ c ≠ '*' := by
  rcases opensQualifier_cases h with rfl | rfl | rfl | rfl <;> decide +kernel

theorem isNamePart_of_isNameStart {c : Char} (h : isNameStart c) : isNamePart c :=
  isNamePart_of_isPseudoPart (by simp [isPseudoPart, h])

theorem isSpace_of_opensCompound {c : Char} (h : opensCompound c) : isSpace c = false := by
  simp only [opensCompound, Bool.or_eq_true, beq_iff_eq] at h
  rcases h with (h | rfl) | h
  · exact (opensQualifier_apart h).2.1
  · decide
  · exact isSpace_of_isNamePart (isNamePart_of_isNameStart h)

theorem headIs_of_spaces {p : Char → Bool} (hp : ∀ c, isSpace c → p c = false)
    {w r : List Char} (hw : SpaceText w) (hr : headIs p r = false) :
    headIs p (w ++ r) = false := by
  cases w with
  | nil => exact hr
  | cons c w => exact hp c (hw c (by simp))

theorem headIs_of_headIs {p q : Char → Bool} (hpq : ∀ c, p c → q c = false) {s : List Char}
    (h : headIs p s) : headIs q s = false := by
  cases s with
  | nil => rfl
  | cons c s => exact hpq c h

theorem headIs_beq_of_headIs {p : Char → Bool} {s : List Char} {x : Char} (h : headIs p s)
    (hx : p x = false) : headIs (· == x) s = false := by
  refine headIs_of_headIs (fun c hc => ?_) h
  have hne : c ≠ x := by rintro rfl; simp [hx] at hc
  simpa using hne

theorem headIs_beq_of_not {p : Char → Bool} {s : List Char} {x : Char} (h : headIs p s = false)
    (hx : p x) : headIs (· == x) s = false := by
  cases s with
  | nil => rfl
  | cons c s =>
    have hne : c ≠ x := by rintro rfl; simp [hx] at h
    simpa using hne

theorem headIs_append {p : Char → Bool} {s : List Char} (h : headIs p s) (t : List Char) :
    headIs p (s ++ t) := by
  cases s with
  | nil => simp at h
  | cons c s => exact h

end Text

/-- Neither a name nor the qualifiers of a compound go on here. -/
structure EndsCompound (s : List Char) : Prop where
  name : headIs isNamePart s = false
  qualifier : headIs opensQualifier s = false

namespace EndsCompound

theorem nil : EndsCompound [] := ⟨rfl, rfl⟩

theorem cons {c : Char} (h : c ∈ "+~>,)".toList) (s : List Char) : EndsCompound (c :: s) := by
  have hsigns : ∀ c ∈ "+~>,)".toList, isNamePart c = false ∧ opensQualifier c = false :=
    forall_mem_of_all (by decide +kernel)
  exact ⟨(hsigns c h).1, (hsigns c h).2⟩

theorem space {c : Char} (h : isSpace c) (s : List Char) : EndsCompound (c :: s) := by
  refine ⟨isNamePart_of_isSpace h, ?_⟩
  cases hq : opensQualifier c with
  | false => exact hq
  | true => simp [(opensQualifier_apart hq).2.1] at h

theorem append_spaces {w r : List Char} (hw : SpaceText w) (hr : EndsCompound r) :
    EndsCompound (w ++ r) := by
  cases w with
  | nil => exact hr
  | cons c w => exact space (hw c (by simp)) _

end EndsCompound

/-! ## Loops -/

namespace Cursor

variable {α : Type}

theorem readWhile_nil {item : Cursor → Except SelectorError (Option (α × Cursor))} {c : Cursor}
    (h : item c = .ok none) : c.readWhile item = .ok ([], c) := by
  rw [readWhile, h]

theorem readWhile_cons {item : Cursor → Except SelectorError (Option (α × Cursor))}
    {c d last : Cursor} {s : List Char} {a : α} {items : List (Nat × α)}
    (h : item c = .ok (some (a, d))) (ht : c.Takes s d) (hs : s ≠ [])
    (hrest : d.readWhile item = .ok (items, last)) :
    c.readWhile item = .ok ((c.offset, a) :: items, last) := by
  rw [readWhile, h]
  simp only [if_pos (ht.length_lt hs), hrest]

theorem readSeparated_last {separator : Cursor → Option Cursor} {item : Reader α} {c d : Cursor}
    {a : α} (h : item c = .ok (a, d)) (hsep : separator d = none) :
    c.readSeparated separator item = .ok ([a], d) := by
  rw [readSeparated, h]
  simp only [hsep]

theorem readSeparated_cons {separator : Cursor → Option Cursor} {item : Reader α}
    {c d e last : Cursor} {s : List Char} {a : α} {items : List α} (h : item c = .ok (a, d))
    (hsep : separator d = some e) (ht : c.Takes s e) (hs : s ≠ [])
    (hrest : e.readSeparated separator item = .ok (items, last)) :
    c.readSeparated separator item = .ok (a :: items, last) := by
  rw [readSeparated, h]
  simp only [hsep, if_pos (ht.length_lt hs), hrest]

end Cursor

/-! ## Tokens -/

namespace Lexicon

/-- A sign with white space before it stands nowhere but before that very sign. -/
theorem token_spaced_eq_none (kind : TokenKind) {sign : Char}
    (hkind : kind.IsText = Spaced sign) (hsign : isSpace sign = false) {c : Cursor}
    {w r : List Char} (hw : SpaceText w) (hspace : headIs isSpace r = false)
    (hr : headIs (· == sign) r = false) (h : c.rest = w ++ r) :
    standard.token kind c = none := by
  refine token_eq_none fun text after htext ht => ?_
  rw [hkind] at htext
  obtain ⟨w', rfl, hw'⟩ := htext
  have hrest : w ++ r = w' ++ sign :: after.rest := by
    rw [← h, ht.rest, List.append_assoc, List.singleton_append]
  obtain ⟨-, rfl⟩ := run_unique hrest hw hw' hspace hsign
  simp at hr

end Lexicon

/-! ## Attribute tests -/

namespace AttributeTest

theorem valueText_start {s : List Char} {value : String} (h : ValueText s value) :
    s ≠ [] ∧ headIs isSpace s = false := by
  cases h with
  | quoted hquote hs =>
    obtain ⟨body, rfl, -⟩ := hs
    rcases hquote with rfl | rfl <;> exact ⟨by simp, rfl⟩
  | identifier hs =>
    obtain ⟨c, t, rfl, hc, -⟩ := hs
    exact ⟨by simp, isSpace_of_isNamePart (isNamePart_of_isPseudoPart hc)⟩

theorem readValue_complete {s : List Char} {value : String} {c after : Cursor}
    (h : ValueText s value) (ht : c.Takes s after) (hend : headIs isNamePart after.rest = false) :
    readValue standard c = .ok (value, after) := by
  cases h with
  | quoted hquote hs =>
    have htext : TokenKind.attributeValue.IsText s := by
      rcases hquote with rfl | rfl
      · exact .inl hs
      · exact .inr hs
    simp [readValue, token_of_text .attributeValue rfl htext ht]
  | identifier hs =>
    have hnone : standard.token .attributeValue c = none := by
      obtain ⟨x, t, rfl, hx, -⟩ := hs
      refine token_eq_none_of_head (fun x => x == '"' || x == '\'') ?_ ?_
      · rintro _ (⟨body, rfl, -⟩ | ⟨body, rfl, -⟩) <;> rfl
      · rw [ht.rest]
        have hquotes : ∀ x, (x == '"' || x == '\'') = true → isPseudoPart x = false := by
          intro x hx
          simp only [Bool.or_eq_true, beq_iff_eq] at hx
          rcases hx with rfl | rfl <;> decide
        cases hq : x == '"' || x == '\'' with
        | false => exact hq
        | true => simp [hquotes x hq] at hx
    have hident : standard.token .identifier c = some (s, after) := token_iff.mpr ⟨hs, ht, hend⟩
    simp [readValue, hnone, hident]

theorem operator_isText {sign : List Char} {operator : AttributeOperator}
    (h : AttributeOperator.ofText? sign = some operator) :
    TokenKind.attributeOperator.IsText sign := by
  unfold AttributeOperator.ofText? at h
  split at h <;> first | (simp at h; done) | skip
  · exact .inl rfl
  all_goals exact .inr ⟨_, by decide, rfl⟩

theorem operator_start {sign : List Char} (h : TokenKind.attributeOperator.IsText sign) :
    headIs (fun x => x ∈ "=~|^$*!".toList) sign := by
  rcases h with rfl | ⟨x, hx, rfl⟩
  · decide
  · have hall : ∀ x ∈ "~|^$*!".toList, decide (x ∈ "=~|^$*!".toList) :=
      forall_mem_of_all rfl
    exact hall x hx

/-- After the name of an attribute come white space and what no name goes on with. -/
theorem closes_name {x : Char} (h : x ∈ "]=~|^$*!".toList) :
    isAttributePart x = false ∧ isSpace x = false := by
  have hall : ∀ x ∈ "]=~|^$*!".toList, isAttributePart x = false ∧ isSpace x = false :=
    forall_mem_of_all (by decide +kernel)
  exact hall x h

theorem isAttributePart_of_isSpace (c : Char) (h : isSpace c) : isAttributePart c = false := by
  have hdot : isSpace '.' = false := by decide
  have hne : c ≠ '.' := by rintro rfl; simp [hdot] at h
  simp [isAttributePart, isNamePart_of_isSpace h, hne]

/-- Up to the sign that ends the name, both forms are read alike. -/
theorem read_eq_readComparison {v name w u : List Char} {x : Char} {c after : Cursor}
    (hv : SpaceText v) (hname : Headed isNameStart isAttributePart name) (hw : SpaceText w)
    (hx : x ∈ "]=~|^$*!".toList) (ht : c.Takes (['['] ++ (v ++ name ++ w ++ x :: u)) after) :
    ∃ d, d.Takes (x :: u) after ∧
      read standard c = readComparison standard (String.ofList name) d := by
  obtain ⟨c1, ht1, ht⟩ := ht.split
  obtain ⟨c4, ht, hlast⟩ := ht.split
  obtain ⟨c3, ht, ht4⟩ := ht.split
  obtain ⟨c2, ht2, ht3⟩ := ht.split
  obtain ⟨hpart, hspace⟩ := closes_name hx
  have hs1 : standard.skip .spaces c1 = c2 := by
    obtain ⟨y, t, rfl, hy, -⟩ := hname
    exact skip_spaces_of_text hv ht2 ht3 (by simp)
      (isSpace_of_isNamePart (isNamePart_of_isNameStart hy))
  have htoken : standard.token .attributeName c2 = some (name, c3) := by
    refine token_iff.mpr ⟨hname, ht3, ?_⟩
    rw [ht4.rest, hlast.rest]
    exact headIs_of_spaces isAttributePart_of_isSpace hw hpart
  have hs2 : standard.skip .spaces c3 = c4 := skip_spaces_of_text hw ht4 hlast (by simp) hspace
  refine ⟨c4, hlast, ?_⟩
  simp [read, expect_of_text .leftBracket rfl rfl ht1, bind, Except.bind, hs1, htoken, hs2]

theorem readComparison_complete {sign x s y : List Char} {operator : AttributeOperator}
    {name value : String} {c after : Cursor}
    (hsign : AttributeOperator.ofText? sign = some operator) (hx : SpaceText x)
    (hs : ValueText s value) (hy : SpaceText y)
    (ht : c.Takes (sign ++ (x ++ (s ++ (y ++ [']'])))) after) :
    readComparison standard name c = .ok (.compare name operator value, after) := by
  have htext := operator_isText hsign
  obtain ⟨c1, ht1, ht⟩ := ht.split
  obtain ⟨c2, ht2, ht⟩ := ht.split
  obtain ⟨c3, ht3, ht⟩ := ht.split
  obtain ⟨c4, ht4, ht5⟩ := ht.split
  have hclose : standard.token .rightBracket c = none := by
    refine token_eq_none_of_head (· == ']') (by rintro _ rfl; rfl) ?_
    rw [ht1.rest, headIs_append_of_ne_nil htext.ne_nil]
    have hne : ∀ x ∈ "=~|^$*!".toList, (x == ']') = false := forall_mem_of_all rfl
    exact headIs_of_headIs (fun x hx => hne x (by simpa using hx)) (operator_start htext)
  have hs1 : standard.skip .spaces c1 = c2 :=
    skip_spaces_of_text hx ht2 ht3 (valueText_start hs).1 (valueText_start hs).2
  have hs2 : standard.skip .spaces c3 = c4 := skip_spaces_of_text hy ht4 ht5 (by simp) rfl
  have hvalue : readValue standard c2 = .ok (value, c3) := by
    refine readValue_complete hs ht3 ?_
    rw [ht4.rest, ht5.rest]
    exact headIs_of_spaces (fun _ => isNamePart_of_isSpace) hy
      (show isNamePart ']' = false by decide +kernel)
  simp [readComparison, hclose, token_of_text .attributeOperator rfl htext ht1, hsign, bind,
    Except.bind, hs1, hvalue, hs2, expect_of_text .rightBracket rfl rfl ht5, pure, Except.pure]

theorem read_complete {s : List Char} {test : AttributeTest} {c after : Cursor}
    (h : AttributeText s test) (ht : c.Takes s after) : read standard c = .ok (test, after) := by
  cases h with
  | present hv hname hw =>
    obtain ⟨d, hd, hread⟩ := read_eq_readComparison hv hname hw (by decide) ht
    rw [hread]
    simp [readComparison, token_of_text .rightBracket rfl rfl hd]
  | @compare v name w sign x s y operator value hv hname hw hsign hx hs hy =>
    obtain ⟨first, u, rfl, hfirst⟩ : ∃ first u, sign = first :: u ∧ first ∈ "]=~|^$*!".toList := by
      have hstart := operator_start (operator_isText hsign)
      cases sign with
      | nil => simp at hstart
      | cons first u => exact ⟨first, u, rfl, List.mem_cons_of_mem _ (of_decide_eq_true hstart)⟩
    obtain ⟨d, hd, hread⟩ := read_eq_readComparison (u := u ++ (x ++ (s ++ (y ++ [']']))))
      hv hname hw hfirst (by simpa using ht)
    rw [hread]
    exact readComparison_complete hsign hx hs hy hd

end AttributeTest

/-! ## Qualifiers -/

namespace Qualifier

theorem pseudoClassText_headed {s : List Char} {pseudoClass : PseudoClass}
    (h : PseudoClassText s pseudoClass) : Headed isPseudoPart isPseudoPart s := by
  have hall : ∀ p ∈ PseudoClass.all, p.name.toList ≠ [] ∧ p.name.toList.all isPseudoPart := by
    decide
  obtain ⟨hne, hpart⟩ := hall pseudoClass (PseudoClass.mem_all pseudoClass)
  rw [List.all_eq_true] at hpart
  rw [← h] at hne hpart
  refine headed_of_all (fun c hc => ?_) (by simpa using hne)
  rw [← isPseudoPart_toLower]
  exact hpart _ (List.mem_map_of_mem hc)

theorem plainText_start {s : List Char} {q : Qualifier} (h : PlainText s q) :
    headIs opensQualifier s := by
  cases h with
  | attributeTest hs => cases hs <;> rfl
  | className | id | place | nth => rfl

theorem qualifiersText_start {s : List Char} {qualifiers : List Qualifier}
    (h : QualifiersText s qualifiers) :
    (s = [] ∧ qualifiers = []) ∨ (headIs opensQualifier s ∧ qualifiers ≠ []) := by
  cases h with
  | nil => exact .inl ⟨rfl, rfl⟩
  | plain hq _ => exact .inr ⟨headIs_append (plainText_start hq) _, by simp⟩
  | negation => exact .inr ⟨rfl, by simp⟩

/-- A name in front of qualifiers ends there. -/
theorem name_ends {s r : List Char} {qualifiers : List Qualifier}
    (h : QualifiersText s qualifiers) (hr : EndsCompound r) : headIs isNamePart (s ++ r) = false := by
  rcases qualifiersText_start h with ⟨rfl, -⟩ | ⟨hs, -⟩
  · exact hr.name
  · exact headIs_of_headIs (fun c hc => (opensQualifier_apart hc).1) (headIs_append hs r)

theorem token_className_eq_none {c : Cursor} (h : headIs (· == '.') c.rest = false) :
    standard.token .className c = none :=
  token_eq_none_of_head (· == '.') (by rintro _ ⟨t, rfl, -⟩; rfl) h

theorem token_id_eq_none {c : Cursor} (h : headIs (· == '#') c.rest = false) :
    standard.token .id c = none :=
  token_eq_none_of_head (· == '#') (by rintro _ ⟨t, rfl, -⟩; rfl) h

theorem token_pseudoClass_eq_none {c : Cursor} (h : headIs (· == ':') c.rest = false) :
    standard.token .pseudoClass c = none :=
  token_eq_none_of_head (· == ':') (by rintro _ ⟨t, rfl, -⟩; rfl) h

theorem read?_eq_none {argument : Option (Reader Compound)} {c : Cursor}
    (h : headIs opensQualifier c.rest = false) : read? standard argument c = .ok none := by
  have hhead : ∀ x, opensQualifier x → headIs (· == x) c.rest = false :=
    fun _ => headIs_beq_of_not h
  have hbracket : standard.token .leftBracket c = none :=
    token_eq_none_of_head (· == '[') (by rintro _ rfl; rfl) (hhead '[' rfl)
  simp [read?, peek, token_className_eq_none (hhead '.' rfl), token_id_eq_none (hhead '#' rfl),
    token_pseudoClass_eq_none (hhead ':' rfl), hbracket]

/-- A pseudo-class is looked for where a colon stands. -/
theorem read?_of_colon (argument : Option (Reader Compound)) {c d : Cursor} {name : List Char}
    (hname : Headed isPseudoPart isPseudoPart name) (ht : c.Takes (':' :: name) d)
    (hd : headIs isPseudoPart d.rest = false) :
    standard.token .pseudoClass c = some (':' :: name, d) ∧
      read? standard argument c = (readPseudoClass standard argument c).map some := by
  have htoken : standard.token .pseudoClass c = some (':' :: name, d) :=
    token_iff.mpr ⟨⟨name, rfl, hname⟩, ht, hd⟩
  have hrest : ∀ x, (':' == x) = false → headIs (· == x) c.rest = false := by
    intro x hx
    rw [ht.rest]
    exact hx
  simp [read?, peek, htoken, token_className_eq_none (hrest '.' rfl),
    token_id_eq_none (hrest '#' rfl)]

theorem isPseudoPart_ends {s : List Char} (h : headIs isNamePart s = false) :
    headIs isPseudoPart s = false := by
  cases s with
  | nil => rfl
  | cons c s =>
    cases hc : isPseudoPart c with
    | false => exact hc
    | true =>
      have : isNamePart c = false := h
      simp [isNamePart_of_isPseudoPart hc] at this

theorem read?_plain {argument : Option (Reader Compound)} {s : List Char} {q : Qualifier}
    {c d : Cursor} (h : PlainText s q) (ht : c.Takes s d) (hd : headIs isNamePart d.rest = false) :
    read? standard argument c = .ok (some (q, d)) := by
  have hother : ∀ {x y : Char} {t : List Char}, (x == y) = false → c.Takes (x :: t) d →
      headIs (· == y) c.rest = false := by
    intro x y t hxy ht
    rw [ht.rest]
    exact hxy
  cases h with
  | @className name hname =>
    have htoken : standard.token .className c = some ('.' :: name, d) :=
      token_iff.mpr ⟨⟨name, rfl, hname⟩, ht, hd⟩
    simp [read?, htoken]
  | @id name hname =>
    have htoken : standard.token .id c = some ('#' :: name, d) :=
      token_iff.mpr ⟨⟨name, rfl, hname⟩, ht, hd⟩
    simp [read?, htoken, token_className_eq_none (hother (y := '.') rfl ht)]
  | attributeTest htest =>
    have hread := AttributeTest.read_complete htest ht
    obtain ⟨t, rfl⟩ : ∃ t, s = '[' :: t := by cases htest <;> exact ⟨_, rfl⟩
    obtain ⟨c1, ht1, -⟩ := Cursor.Takes.split (s := ['[']) ht
    simp [read?, peek, token_className_eq_none (hother (y := '.') rfl ht),
      token_id_eq_none (hother (y := '#') rfl ht),
      token_pseudoClass_eq_none (hother (y := ':') rfl ht),
      token_of_text .leftBracket rfl rfl ht1, hread, Except.map]
  | @place name p among hname =>
    obtain ⟨htoken, hread⟩ := read?_of_colon argument (pseudoClassText_headed hname)
      ht (isPseudoPart_ends hd)
    rw [hread, readPseudoClass, htoken]
    simp [pseudoClassText_iff.mpr hname, Except.map]
  | @nth name u formula among hname hformula =>
    obtain ⟨c1, ht1, ht2⟩ := Cursor.Takes.split (s := ':' :: name) ht
    have hparen : headIs isPseudoPart c1.rest = false := by
      obtain ⟨v, body, w, rfl, -⟩ := hformula
      rw [ht2.rest]
      rfl
    obtain ⟨htoken, hread⟩ := read?_of_colon argument (pseudoClassText_headed hname)
      ht1 hparen
    rw [hread, readPseudoClass, htoken]
    simp [pseudoClassText_iff.mpr hname, Formula.read_complete hformula ht2, bind, Except.bind,
      Except.map, pure, Except.pure]

/-- A negation is read if a reader for its argument is left. -/
theorem read?_negation {argument : Reader Compound} {name w : List Char} {compound : Compound}
    {c c1 c2 c3 d : Cursor} (hname : PseudoClassText name .negation)
    (ht : c.Takes (':' :: name) c1) (ht1 : c1.Takes ['('] c2)
    (hread : argument c2 = .ok (compound, c3)) (hw : SpaceText w)
    (ht3 : c3.Takes (w ++ [')']) d) :
    read? standard (some argument) c =
      .ok (some (.negation compound.element compound.qualifiers, d)) := by
  obtain ⟨c4, ht3, ht4⟩ := ht3.split
  have hparen : headIs isPseudoPart c1.rest = false := by
    rw [ht1.rest]
    rfl
  obtain ⟨htoken, hread?⟩ := read?_of_colon (some argument)
    (pseudoClassText_headed hname) ht hparen
  have hs : standard.skip .spaces c3 = c4 := skip_spaces_of_text hw ht3 ht4 (by simp) rfl
  have hnegation : readNegation standard argument c1 =
      .ok (.negation compound.element compound.qualifiers, d) := by
    simp [readNegation, expect_of_text .leftParen rfl rfl ht1, hread, hs,
      expect_of_text .rightParen rfl rfl ht4, bind, Except.bind, pure, Except.pure]
  rw [hread?, readPseudoClass, htoken]
  simp [pseudoClassText_iff.mpr hname, hnegation, Except.map]

end Qualifier

/-! ## Compounds -/

namespace Compound

theorem readElement_complete {e : List Char} {element : Option ElementTest} {c d : Cursor}
    (h : ElementText e element) (ht : c.Takes e d) (hend : headIs isNamePart d.rest = false)
    (habsent : element = none → headIs opensQualifier d.rest) :
    readElement standard c = (element, d) := by
  cases h with
  | absent =>
    obtain rfl := (Cursor.Takes.refl c).unique ht
    have huniversal : standard.token .universal c = none :=
      token_eq_none_of_head (· == '*') (by rintro _ rfl; rfl)
        (headIs_of_headIs (fun x hx => by simpa using (opensQualifier_apart hx).2.2.2) (habsent rfl))
    have helement : standard.token .element c = none :=
      token_eq_none_of_head isNameStart (by rintro _ ⟨x, t, rfl, hx, -⟩; exact hx)
        (headIs_of_headIs (fun x hx => (opensQualifier_apart hx).2.2.1) (habsent rfl))
    simp [readElement, huniversal, helement]
  | universal => simp [readElement, token_of_text .universal rfl rfl ht]
  | named hname =>
    have huniversal : standard.token .universal c = none := by
      obtain ⟨x, t, rfl, hx, -⟩ := hname
      refine token_eq_none_of_head (· == '*') (by rintro _ rfl; rfl) ?_
      rw [ht.rest]
      have hne : x ≠ '*' := by rintro rfl; exact absurd hx (by decide)
      simpa using hne
    have helement : standard.token .element c = some (e, d) := token_iff.mpr ⟨hname, ht, hend⟩
    simp [readElement, huniversal, helement]

/-- The body of a compound, after the white space in front of it, starts as one. -/
theorem body_start {e t : List Char} {compound : Compound} (he : ElementText e compound.element)
    (ht : QualifiersText t compound.qualifiers) (hn : compound.Nonempty) :
    headIs opensCompound (e ++ t) := by
  have hqualifier : ∀ c, opensQualifier c → opensCompound c := by
    intro c hc
    simp [opensCompound, hc]
  generalize hel : compound.element = element at he
  cases he with
  | absent =>
    rcases Qualifier.qualifiersText_start ht with ⟨-, hnil⟩ | ⟨ht, -⟩
    · exact absurd hnil (hn hel)
    · cases t with
      | nil => simp at ht
      | cons c t => exact hqualifier c ht
  | universal => rfl
  | named hname =>
    obtain ⟨c, s, rfl, hc, -⟩ := hname
    simp [opensCompound, hc]

theorem readWith_complete {argument : Option String → Option (Reader Compound)}
    {enclosing : Option String} {v e t : List Char} {compound : Compound} {c after : Cursor}
    (hv : SpaceText v) (he : ElementText e compound.element)
    (hq : QualifiersText t compound.qualifiers) (hn : compound.Nonempty)
    (hscope : compound.Scoped enclosing) (ht : c.Takes (v ++ e ++ t) after)
    (hend : EndsCompound after.rest)
    (hloop : ∀ d : Cursor, d.Takes t after → ∃ items,
      d.readWhile (Qualifier.read? standard
        (argument ((ElementTest.name? compound.element).or enclosing))) = .ok (items, after) ∧
      items.map Prod.snd = compound.qualifiers) :
    readWith standard argument enclosing c = .ok (compound, after) := by
  obtain ⟨c2, ht, ht3⟩ := ht.split
  obtain ⟨c1, ht1, ht2⟩ := ht.split
  have hbody := body_start he hq hn
  have hs : standard.skip .spaces c = c1 := by
    refine skip_spaces_iff.mpr ⟨v, hv, ht1, ?_⟩
    rw [(ht2.trans ht3).rest]
    exact headIs_of_headIs (fun _ => isSpace_of_opensCompound) (headIs_append hbody _)
  have helement : readElement standard c1 = (compound.element, c2) := by
    refine readElement_complete he ht2 ?_ ?_
    · rw [ht3.rest]
      exact Qualifier.name_ends hq hend
    · intro hnone
      rcases Qualifier.qualifiersText_start hq with ⟨-, hnil⟩ | ⟨hstart, -⟩
      · exact absurd hnil (hn hnone)
      · rw [ht3.rest]
        exact headIs_append hstart _
  obtain ⟨items, hitems, hmap⟩ := hloop c2 ht3
  have hcheck : check c1 compound.element ((ElementTest.name? compound.element).or enclosing) items
      = .ok compound := by
    refine check_eq_ok_iff.mpr ⟨by rw [hmap], hn, fun q hq htype => ?_⟩
    exact (Qualifier.scoped_of_isSameType htype).mp (Qualifier.allScoped_iff.mp hscope q hq)
  simp [readWith, hs, helement, hitems, hcheck, bind, Except.bind, pure, Except.pure]

/-- The reader for the arguments of negations in a compound with some levels left. -/
def argument? (lexicon : Lexicon) : (levels : Nat) → (name : Option String) →
    Option (Reader Compound)
  | 0, _ => none
  | levels + 1, name => some (readNested lexicon levels name)

theorem readNested_eq (lexicon : Lexicon) (levels : Nat) :
    readNested lexicon levels = readWith lexicon (argument? lexicon levels) := by
  cases levels with
  | zero => rfl
  | succ levels => rfl

theorem readQualifiers_complete {t : List Char} {qualifiers : List Qualifier}
    (h : QualifiersText t qualifiers) {levels : Nat} {name : Option String} {c after : Cursor}
    (hdepth : Qualifier.depthAll qualifiers ≤ levels) (hscope : Qualifier.AllScoped name qualifiers)
    (ht : c.Takes t after) (hend : EndsCompound after.rest) :
    ∃ items, c.readWhile (Qualifier.read? standard (argument? standard levels name)) =
        .ok (items, after) ∧ items.map Prod.snd = qualifiers := by
  induction h generalizing levels name c after with
  | nil =>
    obtain rfl := (Cursor.Takes.refl c).unique ht
    exact ⟨[], Cursor.readWhile_nil (Qualifier.read?_eq_none hend.qualifier), rfl⟩
  | @plain s t q rest hq hrest ih =>
    obtain ⟨d, hts, htt⟩ := ht.split
    rw [Qualifier.depthAll, Nat.max_le] at hdepth
    obtain ⟨items, hitems, hmap⟩ := ih hdepth.2 hscope.2 htt hend
    have hd : headIs isNamePart d.rest = false := by
      rw [htt.rest]
      exact Qualifier.name_ends hrest hend
    have hne : s ≠ [] := by
      rintro rfl
      simpa using Qualifier.plainText_start hq
    refine ⟨_, Cursor.readWhile_cons (Qualifier.read?_plain hq hts hd) hts hne hitems, ?_⟩
    simp [hmap]
  | @negation nm v e s w t element qualifiers rest hname hv he hq hn hw hrest ihq ihrest =>
    rw [Qualifier.depthAll, Nat.max_le, Qualifier.depth] at hdepth
    obtain ⟨levels, rfl⟩ : ∃ l, levels = l + 1 := ⟨levels - 1, by omega⟩
    obtain ⟨c4, hts, htt⟩ := ht.split
    have hne : ':' :: (nm ++ ['('] ++ (v ++ e ++ s) ++ w ++ [')']) ≠ [] := by simp
    obtain ⟨items, hitems, hmap⟩ := ihrest hdepth.2 hscope.2 htt hend
    have hparts : c.Takes ((':' :: nm) ++ (['('] ++ ((v ++ e ++ s) ++ (w ++ [')'])))) c4 := by
      simpa using hts
    obtain ⟨c1, ht1, hparts⟩ := hparts.split
    obtain ⟨c2, ht2, hparts⟩ := hparts.split
    obtain ⟨c3, ht3, ht4⟩ := hparts.split
    have hclose : EndsCompound c3.rest := by
      rw [ht4.rest, List.append_assoc]
      exact .append_spaces hw (.cons (by decide) _)
    have hread : readNested standard levels name c2 = .ok (⟨element, qualifiers⟩, c3) := by
      rw [readNested_eq]
      exact readWith_complete hv he hq hn hscope.1 ht3 hclose fun d hd =>
        ihq (Nat.le_of_succ_le_succ hdepth.1) hscope.1 hd hclose
    have hitem := Qualifier.read?_negation hname ht1 ht2 hread hw ht4
    exact ⟨_, Cursor.readWhile_cons hitem hts hne hitems, by simp [hmap]⟩

theorem readNested_complete {s : List Char} {compound : Compound} (h : CompoundText s compound)
    {levels : Nat} {enclosing : Option String} {c after : Cursor}
    (hdepth : compound.depth ≤ levels) (hscope : compound.Scoped enclosing)
    (ht : c.Takes s after) (hend : EndsCompound after.rest) :
    readNested standard levels enclosing c = .ok (compound, after) := by
  obtain ⟨v, e, t, rfl, hv, he, hq, hn⟩ := h
  rw [readNested_eq]
  exact readWith_complete hv he hq hn hscope ht hend fun d hd =>
    readQualifiers_complete hq hdepth hscope hd hend

/-- The white space in front of a compound may be left out. -/
theorem compoundText_split {s : List Char} {compound : Compound} (h : CompoundText s compound) :
    ∃ v body, s = v ++ body ∧ SpaceText v ∧ CompoundText body compound ∧
      headIs opensCompound body := by
  obtain ⟨v, e, t, rfl, hv, he, hq, hn⟩ := h
  refine ⟨v, e ++ t, List.append_assoc .., hv, ⟨[], e, t, rfl, by simp [SpaceText], he, hq, hn⟩, ?_⟩
  exact body_start he hq hn

end Compound

/-! ## Selectors -/

/-- After white space, a selector ends here. -/
def EndsSelector (s : List Char) : Prop :=
  ∃ w r, s = w ++ r ∧ SpaceText w ∧ (r = [] ∨ ∃ t, r = ',' :: t)

theorem EndsSelector.endsCompound {s : List Char} (h : EndsSelector s) : EndsCompound s := by
  obtain ⟨w, r, rfl, hw, rfl | ⟨t, rfl⟩⟩ := h
  · exact .append_spaces hw .nil
  · exact .append_spaces hw (.cons (by decide) t)

namespace Combinator

/-- No sign of a combinator stands before a character that is none. -/
theorem no_sign {c : Cursor} {w r : List Char} (hrest : c.rest = w ++ r) (hw : SpaceText w)
    (hspace : headIs isSpace r = false) (hr : headIs (fun x => x ∈ "+~>".toList) r = false) :
    standard.token .adjacentTo c = none ∧ standard.token .precedes c = none ∧
      standard.token .parentOf c = none := by
  have hother : ∀ x ∈ "+~>".toList, headIs (· == x) r = false :=
    fun x hx => headIs_beq_of_not hr (decide_eq_true hx)
  exact ⟨token_spaced_eq_none .adjacentTo rfl rfl hw hspace (hother '+' (by decide)) hrest,
    token_spaced_eq_none .precedes rfl rfl hw hspace (hother '~' (by decide)) hrest,
    token_spaced_eq_none .parentOf rfl rfl hw hspace (hother '>' (by decide)) hrest⟩

theorem read?_eq_none {c : Cursor} (h : EndsSelector c.rest) : read? standard c = none := by
  obtain ⟨w, r, hrest, hw, hr⟩ := h
  have hspace : headIs isSpace r = false := by
    rcases hr with rfl | ⟨t, rfl⟩ <;> rfl
  have hsign : headIs (fun x => x ∈ "+~>".toList) r = false := by
    rcases hr with rfl | ⟨t, rfl⟩ <;> rfl
  obtain ⟨h1, h2, h3⟩ := no_sign hrest hw hspace hsign
  have hspaces := Cursor.Takes.advance c hrest
  unfold read?
  simp only [signs, List.findSome?_cons, h1, h2, h3, Option.map_none, List.findSome?_nil]
  cases hw' : w with
  | nil =>
    have hnone : standard.token .ancestorOf c = none := by
      refine token_eq_none_of_head isSpace (by rintro _ ⟨x, t, rfl, hx, -⟩; exact hx) ?_
      rw [hrest, hw']
      exact hspace
    rw [hnone]
  | cons x t =>
    have hsome : standard.token .ancestorOf c = some (w, c.advance w r) :=
      token_iff.mpr ⟨headed_of_all hw (by simp [hw']), hspaces, hspace⟩
    rw [hsome]
    rcases hr with rfl | ⟨u, rfl⟩
    · simp [Cursor.atEnd, Cursor.advance]
    · have hcomma : standard.token .comma c = some (w ++ [','], c.advance (w ++ [',']) u) :=
        token_of_text .comma rfl ⟨w, rfl, hw⟩ (.advance c (by simp [hrest]))
      simp [peek, hcomma]

/-- A combinator is found in front of a compound, with all the white space before it. -/
theorem read?_complete {s t : List Char} {combinator : Combinator} {compound : Compound}
    {c d : Cursor} (hs : CombinatorText s combinator) (ht : CompoundText t compound)
    (htakes : c.Takes (s ++ t) d) :
    ∃ u v c1, t = u ++ v ∧ c.Takes (s ++ u) c1 ∧ CompoundText v compound ∧
      read? standard c = some (combinator, c1) := by
  -- The signs that are tried before the one that stands here are other characters.
  have hother : ∀ kind {x y : Char}, kind.IsText = Spaced y → isSpace x = false →
      isSpace y = false → (x == y) = false → Spaced x s → standard.token kind c = none := by
    rintro kind x y hkind hx hy hxy ⟨w, rfl, hw⟩
    exact token_spaced_eq_none kind hkind hy hw (r := x :: (t ++ d.rest)) hx hxy
      (by simp [htakes.rest])
  obtain ⟨c1, ht1, ht2⟩ := htakes.split
  cases hs with
  | nextSibling hs =>
    refine ⟨[], t, c1, rfl, by simpa using ht1, ht, ?_⟩
    simp [read?, signs, token_of_text .adjacentTo rfl hs ht1]
  | laterSibling hs =>
    have h1 : standard.token .adjacentTo c = none := hother .adjacentTo rfl rfl rfl rfl hs
    refine ⟨[], t, c1, rfl, by simpa using ht1, ht, ?_⟩
    simp [read?, signs, h1, token_of_text .precedes rfl hs ht1]
  | child hs =>
    have h1 : standard.token .adjacentTo c = none := hother .adjacentTo rfl rfl rfl rfl hs
    have h2 : standard.token .precedes c = none := hother .precedes rfl rfl rfl rfl hs
    refine ⟨[], t, c1, rfl, by simpa using ht1, ht, ?_⟩
    simp [read?, signs, h1, h2, token_of_text .parentOf rfl hs ht1]
  | descendant hs =>
    obtain ⟨u, v, rfl, hu, hv, hstart⟩ := Compound.compoundText_split ht
    obtain ⟨c2, htu, htv⟩ := ht2.split
    have htsu := ht1.trans htu
    have hw : SpaceText (s ++ u) := by
      intro x hx
      rcases List.mem_append.mp hx with hx | hx
      · exact all_of_headed hs (fun _ h => h) x hx
      · exact hu x hx
    have hne : s ++ u ≠ [] := by
      obtain ⟨x, s, rfl, -⟩ := hs
      simp
    have hopens : headIs opensCompound c2.rest := by
      rw [htv.rest]
      exact headIs_append hstart _
    have hspace := headIs_of_headIs (fun _ => isSpace_of_opensCompound) hopens
    have hsigns : ∀ x ∈ "+~>".toList, opensCompound x = false := forall_mem_of_all rfl
    have hsign : headIs (fun x => x ∈ "+~>".toList) c2.rest = false := by
      refine headIs_of_headIs (fun x hx => decide_eq_false fun hmem => ?_) hopens
      simp [hsigns x hmem] at hx
    obtain ⟨h1, h2, h3⟩ := no_sign htsu.rest hw hspace hsign
    have htoken : standard.token .ancestorOf c = some (s ++ u, c2) :=
      token_iff.mpr ⟨headed_of_all hw hne, htsu, hspace⟩
    have hend : c2.atEnd = false := by
      cases hrest : c2.rest with
      | nil => simp [hrest] at hopens
      | cons x r => simp [Cursor.atEnd, hrest]
    have hcomma : standard.token .comma c = none :=
      token_spaced_eq_none .comma rfl rfl hw hspace (headIs_beq_of_headIs hopens rfl) htsu.rest
    have hparen : standard.token .rightParen c2 = none :=
      token_eq_none_of_head (· == ')') (by rintro _ rfl; rfl) (headIs_beq_of_headIs hopens rfl)
    refine ⟨u, v, c2, rfl, htsu, hv, ?_⟩
    simp [read?, signs, h1, h2, h3, htoken, hend, peek, hcomma, hparen]

end Combinator

namespace Selector

theorem combinatorText_start {s : List Char} {combinator : Combinator}
    (h : CombinatorText s combinator) : s ≠ [] ∧ ∀ r, EndsCompound (s ++ r) := by
  have hspaced : ∀ sign ∈ "+~>,)".toList, Spaced sign s → s ≠ [] ∧ ∀ r, EndsCompound (s ++ r) := by
    rintro sign hsign ⟨w, rfl, hw⟩
    refine ⟨by simp, fun r => ?_⟩
    rw [List.append_assoc]
    exact .append_spaces hw (.cons hsign r)
  cases h with
  | nextSibling hs => exact hspaced '+' (by decide) hs
  | laterSibling hs => exact hspaced '~' (by decide) hs
  | child hs => exact hspaced '>' (by decide) hs
  | descendant hs =>
    obtain ⟨c, t, rfl, hc, -⟩ := hs
    exact ⟨by simp, fun r => .space hc (t ++ r)⟩

/-- A compound ends before the steps after it. -/
theorem stepsText_ends {s r : List Char} {steps : List Step} (h : StepsText s steps)
    (hr : EndsSelector r) : EndsCompound (s ++ r) := by
  cases h with
  | nil => exact hr.endsCompound
  | cons hs _ _ =>
    rw [List.append_assoc, List.append_assoc]
    exact (combinatorText_start hs).2 _

theorem readSteps_complete {s : List Char} {steps : List Step} (h : StepsText s steps)
    {c after : Cursor} (hbounded : ∀ step ∈ steps, step.compound.Bounded)
    (ht : c.Takes s after) (hend : EndsSelector after.rest) :
    ∃ items, c.readWhile (Step.read? standard) = .ok (items, after) ∧
      items.map Prod.snd = steps := by
  induction h generalizing c with
  | nil =>
    obtain rfl := (Cursor.Takes.refl c).unique ht
    refine ⟨[], Cursor.readWhile_nil ?_, rfl⟩
    simp [Step.read?, Combinator.read?_eq_none hend]
  | @cons s t u combinator compound rest hs hcompound hrest ih =>
    obtain ⟨hfirst, hothers⟩ := List.forall_mem_cons.mp hbounded
    obtain ⟨d, htst, htu⟩ := ht.split
    obtain ⟨items, hitems, hmap⟩ := ih hothers htu
    obtain ⟨w, v, c1, rfl, htsw, hv, hread⟩ := Combinator.read?_complete hs hcompound htst
    have hcut : c.Takes ((s ++ w) ++ v) d := by simpa using htst
    obtain ⟨c1', htsw', htv⟩ := hcut.split
    obtain rfl := htsw.unique htsw'
    have hd : EndsCompound d.rest := by
      rw [htu.rest]
      exact stepsText_ends hrest hend
    have hcompound : Compound.read standard c1 = .ok (compound, d) :=
      Compound.readNested_complete hv hfirst.depth hfirst.scope htv hd
    have hitem : Step.read? standard c = .ok (some (⟨combinator, compound⟩, d)) := by
      simp [Step.read?, hread, hcompound, Except.map]
    have hne : s ++ (w ++ v) ≠ [] := by simp [(combinatorText_start hs).1]
    exact ⟨_, Cursor.readWhile_cons hitem htst hne hitems, by simp [hmap]⟩

/-- A sign for children at the start is found if and only if it stands there. -/
theorem scope_complete {s t : List Char} {combinator : Combinator} {compound : Compound}
    {c d : Cursor} (hs : ScopeText s combinator) (ht : CompoundText t compound)
    (htakes : c.Takes (s ++ t) d) :
    (∃ c1, c1.Takes t d ∧ standard.token .parentOf c = some (s, c1) ∧ combinator = .child) ∨
      (c.Takes t d ∧ standard.token .parentOf c = none ∧ combinator = .descendant) := by
  cases hs with
  | absent =>
    obtain ⟨u, v, rfl, hu, -, hstart⟩ := Compound.compoundText_split ht
    have hopens := headIs_append hstart d.rest
    have hnone : standard.token .parentOf c = none :=
      token_spaced_eq_none .parentOf rfl rfl hu
        (headIs_of_headIs (fun _ => isSpace_of_opensCompound) hopens)
        (headIs_beq_of_headIs hopens rfl) (by simp [htakes.rest])
    exact .inr ⟨htakes, hnone, rfl⟩
  | child hs =>
    obtain ⟨c1, ht1, ht2⟩ := htakes.split
    exact .inl ⟨c1, ht2, token_of_text .parentOf rfl hs ht1, rfl⟩

theorem read_complete {s : List Char} {selector : Selector} (h : SelectorText s selector)
    {c after : Cursor} (hbounded : ∀ step ∈ selector.steps, step.compound.Bounded)
    (ht : c.Takes s after) (hend : EndsSelector after.rest) :
    read standard c = .ok (selector, after) := by
  obtain @⟨s, t, u, combinator, compound, rest, hs, hcompound, hrest⟩ := h
  obtain ⟨hfirst, hothers⟩ := List.forall_mem_cons.mp hbounded
  obtain ⟨d, htst, htu⟩ := ht.split
  obtain ⟨items, hitems, hmap⟩ := readSteps_complete hrest hothers htu hend
  have hd : EndsCompound d.rest := by
    rw [htu.rest]
    exact stepsText_ends hrest hend
  have hread {c1 : Cursor} (ht1 : c1.Takes t d) : Compound.read standard c1 = .ok (compound, d) :=
    Compound.readNested_complete hcompound hfirst.depth hfirst.scope ht1 hd
  rcases scope_complete hs hcompound htst with ⟨c1, ht1, hsign, rfl⟩ | ⟨ht1, hsign, rfl⟩
  · simp [read, hsign, hread ht1, hitems, hmap, bind, Except.bind, pure, Except.pure]
  · simp [read, hsign, hread ht1, hitems, hmap, bind, Except.bind, pure, Except.pure]

end Selector

end SelectorPath
