import SelectorPath.Proofs.Selector.Recognition

/-!
Cutting a text at its commas. A text is `Balanced` if cutting passes over it whatever stands
around it, and all that the grammar relates to a selector is (`Grammar.SelectorText.balanced`).
A text `Reaches` a comma if cutting that starts somewhere in it, at some depth, stops there;
no token but a comma leads from such a text past the comma (`Reaches.of_isText`).
-/

namespace SelectorPath

open Text Grammar Lexicon

/-! ## Cutting -/

theorem splitAtComma_append (depth : Nat) (quote : Option Char) (s : List Char) :
    (splitAtComma depth quote s).1 ++ (splitAtComma depth quote s).2 = s := by
  fun_induction splitAtComma depth quote s <;> simp_all

/-- Cutting stops at the end or at a comma. -/
theorem splitAtComma_snd (depth : Nat) (quote : Option Char) (s : List Char) :
    (splitAtComma depth quote s).2 = [] ∨ ∃ t, (splitAtComma depth quote s).2 = ',' :: t := by
  fun_induction splitAtComma depth quote s <;> simp_all

theorem splitAtComma_cons_none (depth : Nat) (c : Char) (s : List Char) :
    splitAtComma depth none (c :: s) = if c = ',' ∧ depth = 0 then ([], c :: s) else
      let after := splitAtComma
        (if c = '(' ∨ c = '[' then depth + 1 else if c = ')' ∨ c = ']' then depth - 1 else depth)
        (if c = '"' ∨ c = '\'' then some c else none) s
      (c :: after.1, after.2) := by
  rw [splitAtComma]

theorem splitAtComma_of_ends {s : List Char} (h : s = [] ∨ ∃ t, s = ',' :: t) :
    splitAtComma 0 none s = ([], s) := by
  rcases h with rfl | ⟨t, rfl⟩
  · rw [splitAtComma]
  · simp [splitAtComma_cons_none]

theorem splitAtComma_escaped (depth : Nat) (quote c : Char) (s : List Char) :
    splitAtComma depth (some quote) ('\\' :: c :: s) =
      ('\\' :: c :: (splitAtComma depth (some quote) s).1,
        (splitAtComma depth (some quote) s).2) := by
  rw [splitAtComma]

theorem splitAtComma_quoted (depth : Nat) (quote : Char) {c : Char} (hc : c ≠ '\\')
    (s : List Char) : splitAtComma depth (some quote) (c :: s) =
      (c :: (splitAtComma depth (if c = quote then none else some quote) s).1,
        (splitAtComma depth (if c = quote then none else some quote) s).2) := by
  rw [splitAtComma]
  rintro d t h -
  exact hc h

/-! ## Segments -/

/-- A member of a list as it is written, and the offset at which it starts. -/
structure Segment where
  start : Nat
  text : List Char
  deriving DecidableEq, Repr

/-- The segment at a place, which reaches to the next comma. -/
def segmentAt (c : Cursor) : Segment := ⟨c.offset, (splitAtComma 0 none c.rest).1⟩

/-- The segments from a place on, with a comma after each but the last. -/
def segments (c : Cursor) : List Segment :=
  segmentAt c ::
    match _h : (splitAtComma 0 none c.rest).2 with
    | [] => []
    | comma :: rest => segments (c.advance ((segmentAt c).text ++ [comma]) rest)
termination_by c.rest.length
decreasing_by
  have hcut := congrArg List.length (splitAtComma_append 0 none c.rest)
  rw [List.length_append, _h, List.length_cons] at hcut
  simp only [Cursor.advance]
  omega

theorem segments_last {c : Cursor} (h : (splitAtComma 0 none c.rest).2 = []) :
    segments c = [segmentAt c] := by
  rw [segments]
  split
  · rfl
  · next hcons => simp [h] at hcons

theorem segments_cons {c d : Cursor} (h : c.Takes ((segmentAt c).text ++ [',']) d) :
    segments c = segmentAt c :: segments d := by
  have hcut : (splitAtComma 0 none c.rest).2 = ',' :: d.rest := by
    have hrest := (splitAtComma_append 0 none c.rest).trans h.rest
    rw [List.append_assoc] at hrest
    exact List.append_cancel_left hrest
  rw [segments]
  split
  · next hnil => simp [hcut] at hnil
  · next comma rest hcons =>
    obtain ⟨rfl, rfl⟩ := List.cons.inj (hcut.symm.trans hcons)
    rw [(Cursor.Takes.advance c h.rest).unique h]

/-- Whether a position lies in a segment or at the comma after it. -/
def Segment.Holds (segment : Segment) (position : Nat) : Prop :=
  segment.start ≤ position ∧ position ≤ segment.start + byteLength segment.text

/-! ## Balanced texts -/

/-- Cutting passes over a text as if it were not there. -/
def Balanced (s : List Char) : Prop :=
  ∀ depth t, splitAtComma depth none (s ++ t) =
    (s ++ (splitAtComma depth none t).1, (splitAtComma depth none t).2)

/-- The characters that count in cutting. -/
def marks : List Char := [',', '"', '\'', '(', ')', '[', ']']

namespace Balanced

variable {s t : List Char}

theorem nil : Balanced [] := fun _ _ => rfl

theorem append (hs : Balanced s) (ht : Balanced t) : Balanced (s ++ t) := by
  intro depth u
  rw [List.append_assoc, hs, ht, List.append_assoc]

theorem char {c : Char} (hc : c ∉ marks) : Balanced [c] := by
  intro depth t
  simp only [marks, List.mem_cons, not_or] at hc
  rw [List.singleton_append, splitAtComma_cons_none]
  simp [hc]

theorem chars (h : ∀ c ∈ s, c ∉ marks) : Balanced s := by
  induction s with
  | nil => exact nil
  | cons c s ih =>
    obtain ⟨hc, hs⟩ := List.forall_mem_cons.mp h
    exact (char hc).append (ih hs)

/-- A text in brackets or parentheses. -/
theorem enclosed {opening closing : Char} (hopening : opening = '(' ∨ opening = '[')
    (hclosing : closing = ')' ∨ closing = ']') (hs : Balanced s) :
    Balanced (opening :: (s ++ [closing])) := by
  intro depth t
  have hopen : ∀ r, splitAtComma depth none (opening :: r) =
      (opening :: (splitAtComma (depth + 1) none r).1, (splitAtComma (depth + 1) none r).2) := by
    intro r
    rw [splitAtComma_cons_none]
    rcases hopening with rfl | rfl <;> simp
  have hclose : ∀ r, splitAtComma (depth + 1) none (closing :: r) =
      (closing :: (splitAtComma depth none r).1, (splitAtComma depth none r).2) := by
    intro r
    rw [splitAtComma_cons_none]
    rcases hclosing with rfl | rfl <;> simp
  simp [hopen, hclose, hs (depth + 1)]

theorem quoted {quote : Char} (hquote : quote = '"' ∨ quote = '\'') (hs : QuotedText quote s) :
    Balanced s := by
  obtain ⟨body, rfl, hbody⟩ := hs
  intro depth t
  have hinside : splitAtComma depth (some quote) (body ++ quote :: t) =
      (body ++ quote :: (splitAtComma depth none t).1, (splitAtComma depth none t).2) := by
    induction hbody with
    | nil =>
      have hq : quote ≠ '\\' := by rcases hquote with rfl | rfl <;> decide
      simp [splitAtComma_quoted depth quote hq]
    | escaped _ _ ih => simp [splitAtComma_escaped, ih]
    | plain hc hslash _ ih => simp [splitAtComma_quoted depth quote hslash, hc, ih]
  rw [List.cons_append, splitAtComma_cons_none]
  rcases hquote with rfl | rfl <;> simp [hinside]

end Balanced

theorem notMem_of_class {p : Char → Bool} {list : List Char} (hp : ∀ m ∈ list, p m = false)
    {c : Char} (hc : p c) : c ∉ list := by
  intro hmem
  simp [hp c hmem] at hc

theorem Headed.forall_mem {p q : Char → Bool} {P : Char → Prop} {s : List Char}
    (h : Headed p q s) (hp : ∀ c, p c → P c) (hq : ∀ c, q c → P c) : ∀ c ∈ s, P c := by
  obtain ⟨c, t, rfl, hc, ht⟩ := h
  exact List.forall_mem_cons.mpr ⟨hp c hc, fun d hd => hq d (ht d hd)⟩

/-! ## The grammar -/

theorem isAttributePart_of_isNamePart {c : Char} (h : isNamePart c) : isAttributePart c := by
  simp [isAttributePart, h]

theorem isAttributePart_of_isNameStart {c : Char} (h : isNameStart c) : isAttributePart c :=
  isAttributePart_of_isNamePart (isNamePart_of_isNameStart h)

theorem isAttributePart_of_isPseudoPart {c : Char} (h : isPseudoPart c) : isAttributePart c :=
  isAttributePart_of_isNamePart (isNamePart_of_isPseudoPart h)

theorem notMem_marks_of_isSpace {c : Char} (h : isSpace c) : c ∉ marks :=
  notMem_of_class (forall_mem_of_all (by decide +kernel)) h

theorem notMem_marks_of_isAttributePart {c : Char} (h : isAttributePart c) : c ∉ marks :=
  notMem_of_class (forall_mem_of_all (by decide +kernel)) h

theorem notMem_marks_of_isDigit {c : Char} (h : isDigit c) : c ∉ marks :=
  notMem_of_class (forall_mem_of_all (by decide +kernel)) h

namespace Grammar

variable {s : List Char}

theorem SpaceText.balanced (h : SpaceText s) : Balanced s :=
  .chars fun c hc => notMem_marks_of_isSpace (h c hc)

theorem splitAtComma_spaces {w : List Char} (hw : SpaceText w) :
    splitAtComma 0 none w = (w, []) := by
  have hcut := hw.balanced 0 []
  rwa [splitAtComma_of_ends (.inl rfl), List.append_nil] at hcut

theorem splitAtComma_spaced {w : List Char} (hw : SpaceText w) (t : List Char) :
    splitAtComma 0 none (w ++ ',' :: t) = (w, ',' :: t) := by
  rw [hw.balanced, splitAtComma_of_ends (.inr ⟨t, rfl⟩), List.append_nil]

theorem spaced_balanced {sign : Char} (hsign : sign ∉ marks) (h : Spaced sign s) : Balanced s := by
  obtain ⟨w, rfl, hw⟩ := h
  exact (SpaceText.balanced hw).append (.char hsign)

theorem names_balanced {p q : Char → Bool} (hp : ∀ c, p c → isAttributePart c)
    (hq : ∀ c, q c → isAttributePart c) (h : Headed p q s) : Balanced s :=
  .chars (h.forall_mem (fun c hc => notMem_marks_of_isAttributePart (hp c hc))
    fun c hc => notMem_marks_of_isAttributePart (hq c hc))

theorem ElementText.balanced {element : Option ElementTest} (h : ElementText s element) :
    Balanced s := by
  cases h with
  | absent => exact .nil
  | universal => exact .char (by decide)
  | named hs =>
    exact names_balanced (fun _ => isAttributePart_of_isNameStart)
      (fun _ => isAttributePart_of_isNamePart) hs

theorem ValueText.balanced {value : String} (h : ValueText s value) : Balanced s := by
  cases h with
  | quoted hquote hs => exact .quoted hquote hs
  | identifier hs =>
    exact names_balanced (fun _ => isAttributePart_of_isPseudoPart)
      (fun _ => isAttributePart_of_isNamePart) hs

theorem operator_balanced {operator : AttributeOperator}
    (h : AttributeOperator.ofText? s = some operator) : Balanced s := by
  have hequals : Balanced ['='] := .char (by decide)
  rcases AttributeTest.operator_isText h with rfl | ⟨c, hc, rfl⟩
  · exact hequals
  · have hc := forall_mem_of_all (P := (· ∉ marks)) (by decide) c hc
    exact (Balanced.char hc).append hequals

theorem AttributeText.balanced {test : AttributeTest} (h : AttributeText s test) : Balanced s := by
  cases h with
  | present hv hname hw =>
    have hname := names_balanced (fun _ => isAttributePart_of_isNameStart) (fun _ hc => hc) hname
    exact .enclosed (.inr rfl) (.inr rfl) ((hv.balanced.append hname).append hw.balanced)
  | compare hv hname hw hsign hx hs hy =>
    have hname := names_balanced (fun _ => isAttributePart_of_isNameStart) (fun _ hc => hc) hname
    have hfront := ((hv.balanced.append hname).append hw.balanced).append (operator_balanced hsign)
    exact .enclosed (.inr rfl) (.inr rfl)
      (((hfront.append hx.balanced).append hs.balanced).append hy.balanced)

theorem pseudoClassText_balanced {pseudoClass : PseudoClass} (h : PseudoClassText s pseudoClass) :
    Balanced (':' :: s) := by
  have hs := names_balanced (fun _ => isAttributePart_of_isPseudoPart)
    (fun _ => isAttributePart_of_isPseudoPart) (Qualifier.pseudoClassText_headed h)
  exact (Balanced.char (by decide)).append hs

theorem keyword_balanced {word : String} (hword : word.toList.all isPseudoPart)
    (h : s.map Char.toLower = word.toList) : Balanced s := by
  refine .chars fun c hc => notMem_marks_of_isAttributePart (isAttributePart_of_isPseudoPart ?_)
  rw [← isPseudoPart_toLower]
  exact List.all_eq_true.mp hword _ (h ▸ List.mem_map_of_mem hc)

theorem NumberText.balanced {magnitude : Int64} (h : NumberText s magnitude) : Balanced s :=
  .chars ((Formula.headed_of_numberText h).forall_mem (fun _ => notMem_marks_of_isDigit)
    fun _ => notMem_marks_of_isDigit)

theorem SignText.balanced {negative : Bool} (h : SignText s negative) : Balanced s := by
  rcases h with ⟨rfl, -⟩ | ⟨rfl, -⟩ <;> exact .char (by decide)

theorem OptionalSign.balanced {negative : Bool} (h : OptionalSign s negative) : Balanced s := by
  rcases h with ⟨rfl, -⟩ | h
  · exact .nil
  · exact h.balanced

theorem FormulaBody.balanced {formula : Formula} (h : FormulaBody s formula) : Balanced s := by
  cases h with
  | even h | odd h => exact keyword_balanced (by decide) h
  | position hsign hdigits => exact hsign.balanced.append hdigits.balanced
  | linear hcoefficient hn hconstant =>
    refine .append (.append ?_ ?_) ?_
    · cases hcoefficient with
      | sign hsign => exact hsign.balanced
      | digits hsign hdigits => exact hsign.balanced.append hdigits.balanced
    · rcases hn with rfl | rfl <;> exact .char (by decide)
    · cases hconstant with
      | absent => exact .nil
      | present hv hsign hw hdigits =>
        exact ((hv.balanced.append hsign.balanced).append hw.balanced).append hdigits.balanced

theorem FormulaText.balanced {formula : Formula} (h : FormulaText s formula) : Balanced s := by
  obtain ⟨v, body, w, rfl, hv, hbody, hw⟩ := h
  exact .enclosed (.inl rfl) (.inl rfl) ((hv.balanced.append hbody.balanced).append hw.balanced)

theorem PlainText.balanced {q : Qualifier} (h : PlainText s q) : Balanced s := by
  cases h with
  | className hname | id hname =>
    have hname := names_balanced (fun _ => isAttributePart_of_isNamePart)
      (fun _ => isAttributePart_of_isNamePart) hname
    exact (Balanced.char (by decide)).append hname
  | attributeTest htest => exact htest.balanced
  | place hname => exact pseudoClassText_balanced hname
  | nth hname hformula => exact (pseudoClassText_balanced hname).append hformula.balanced

theorem QualifiersText.balanced {qualifiers : List Qualifier} (h : QualifiersText s qualifiers) :
    Balanced s := by
  induction h with
  | nil => exact .nil
  | plain hq _ ih => exact hq.balanced.append ih
  | @negation name v e s w t element qualifiers rest hname hv he _ _ hw _ ihs iht =>
    have hargument := ((hv.balanced.append he.balanced).append ihs).append hw.balanced
    have hnegation := (pseudoClassText_balanced hname).append
      (Balanced.enclosed (.inl rfl) (.inl rfl) hargument)
    simpa using hnegation.append iht

theorem CompoundText.balanced {compound : Compound} (h : CompoundText s compound) :
    Balanced s := by
  obtain ⟨v, e, t, rfl, hv, he, ht, -⟩ := h
  exact (hv.balanced.append he.balanced).append ht.balanced

theorem CombinatorText.balanced {combinator : Combinator} (h : CombinatorText s combinator) :
    Balanced s := by
  cases h with
  | nextSibling hs | laterSibling hs | child hs => exact spaced_balanced (by decide) hs
  | descendant hs => exact SpaceText.balanced (all_of_headed hs fun _ hc => hc)

theorem StepsText.balanced {steps : List Step} (h : StepsText s steps) : Balanced s := by
  induction h with
  | nil => exact .nil
  | cons hs hcompound _ ih => exact (hs.balanced.append hcompound.balanced).append ih

theorem SelectorText.balanced {selector : Selector} (h : SelectorText s selector) :
    Balanced s := by
  obtain ⟨hs, hcompound, hrest⟩ := h
  refine .append (.append ?_ hcompound.balanced) hrest.balanced
  cases hs with
  | absent => exact .nil
  | child hs => exact spaced_balanced (by decide) hs

end Grammar

/-! ## Reaching a comma -/

theorem peek_comma {c : Cursor} {w r : List Char} (hrest : c.rest = w ++ r) (hw : SpaceText w)
    (hr : headIs isSpace r = false) : standard.peek .comma c = headIs (· == ',') r := by
  unfold peek
  cases hcomma : headIs (· == ',') r with
  | false => rw [token_spaced_eq_none .comma rfl rfl hw hr hcomma hrest, Option.isSome_none]
  | true =>
    cases r with
    | nil => simp at hcomma
    | cons x t =>
      obtain rfl : x = ',' := by simpa using hcomma
      have htext : Spaced ',' (w ++ [',']) := ⟨w, rfl, hw⟩
      have htakes := Cursor.Takes.advance c (s := w ++ [',']) (t := t) (by simp [hrest])
      rw [token_of_text .comma rfl htext htakes, Option.isSome_some]

/-- Cutting that starts at a text, at some depth, stops at `tail` behind the text. -/
def Reaches (tail s : List Char) : Prop :=
  ∃ depth, splitAtComma depth none (s ++ tail) = (s, tail)

theorem reaches_splitAtComma (s : List Char) :
    Reaches (splitAtComma 0 none s).2 (splitAtComma 0 none s).1 :=
  ⟨0, by rw [splitAtComma_append]⟩

/-- No quotes and no comma. -/
def Unquoted (s : List Char) : Prop := ∀ c ∈ s, c ∉ [',', '"', '\'']

namespace Unquoted

variable {s : List Char}

theorem char {c : Char} (hc : c ∉ [',', '"', '\'']) : Unquoted [c] :=
  List.forall_mem_singleton.mpr hc

theorem cons {c : Char} (hc : c ∉ [',', '"', '\'']) (hs : Unquoted s) : Unquoted (c :: s) :=
  List.forall_mem_cons.mpr ⟨hc, hs⟩

theorem of_class {p : Char → Bool} (hp : p ',' = false ∧ p '"' = false ∧ p '\'' = false)
    (hs : ∀ c ∈ s, p c) : Unquoted s := by
  intro c hc
  exact notMem_of_class (by simpa using hp) (hs c hc)

theorem spaced {sign : Char} (hsign : sign ∉ [',', '"', '\'']) (hs : Spaced sign s) :
    Unquoted s := by
  obtain ⟨w, rfl, hw⟩ := hs
  intro c hc
  rcases List.mem_append.mp hc with hc | hc
  · exact of_class (p := isSpace) (by decide +kernel) hw c hc
  · exact char hsign c hc

theorem name {p q : Char → Bool} (hp : ∀ c, p c → isAttributePart c)
    (hq : ∀ c, q c → isAttributePart c) (hs : Headed p q s) : Unquoted s :=
  of_class (p := isAttributePart) (by decide +kernel) (hs.forall_mem hp hq)

/-- There are quotes only in values, and commas only in values and commas. -/
theorem of_isText {kind : TokenKind} (hcomma : kind ≠ .comma) (hvalue : kind ≠ .attributeValue)
    (h : kind.IsText s) : Unquoted s := by
  have hkeyword : ∀ word : List Char, word.all isPseudoPart → s.map Char.toLower = word →
      Unquoted s := by
    rintro _ hword rfl
    refine of_class (p := isPseudoPart) (by decide +kernel) fun c hc => ?_
    rw [← isPseudoPart_toLower]
    exact List.all_eq_true.mp hword _ (List.mem_map_of_mem hc)
  cases kind with
  | comma | attributeValue => contradiction
  | spaces | ancestorOf =>
    exact of_class (p := isSpace) (by decide +kernel) (all_of_headed h fun _ hc => hc)
  | number => exact of_class (p := isDigit) (by decide +kernel) (all_of_headed h fun _ hc => hc)
  | universal | leftBracket | rightBracket | leftParen | rightParen =>
    exact h ▸ char (by decide)
  | element =>
    exact name (fun _ => isAttributePart_of_isNameStart) (fun _ => isAttributePart_of_isNamePart) h
  | attributeName => exact name (fun _ => isAttributePart_of_isNameStart) (fun _ hc => hc) h
  | identifier =>
    exact name (fun _ => isAttributePart_of_isPseudoPart) (fun _ => isAttributePart_of_isNamePart) h
  | className | id =>
    obtain ⟨t, rfl, ht⟩ := h
    exact cons (by decide) (name (fun _ => isAttributePart_of_isNamePart)
      (fun _ => isAttributePart_of_isNamePart) ht)
  | pseudoClass =>
    obtain ⟨t, rfl, ht⟩ := h
    exact cons (by decide) (name (fun _ => isAttributePart_of_isPseudoPart)
      (fun _ => isAttributePart_of_isPseudoPart) ht)
  | attributeOperator =>
    rcases h with rfl | ⟨c, hc, rfl⟩
    · exact char (by decide)
    · exact cons (forall_mem_of_all (P := (· ∉ [',', '"', '\''])) (by decide) c hc)
        (char (by decide))
  | odd | even => exact hkeyword _ (by decide) h
  | n | sign => rcases h with rfl | rfl <;> exact char (by decide)
  | adjacentTo | precedes | parentOf => exact spaced (by decide) h

end Unquoted

namespace Reaches

variable {tail s t : List Char}

/-- A character that opens no quotes is passed, and the comma stays where it is. -/
theorem tail_of_cons {c : Char} (h : Reaches tail (c :: s)) (hc : c ∉ ['"', '\'']) :
    Reaches tail s := by
  obtain ⟨depth, h⟩ := h
  have hc : ¬(c = '"' ∨ c = '\'') := by simpa using hc
  rw [List.cons_append, splitAtComma_cons_none, if_neg hc] at h
  split at h
  · simp at h
  · simp only [Prod.mk.injEq, List.cons.injEq, true_and] at h
    exact ⟨_, Prod.ext h.1 h.2⟩

theorem of_balanced {r : List Char} (h : Reaches tail s) (ht : Balanced t)
    (hst : s ++ tail = t ++ r) : ∃ s', s = t ++ s' ∧ r = s' ++ tail ∧ Reaches tail s' := by
  obtain ⟨depth, h⟩ := h
  rw [hst, ht depth r, Prod.mk.injEq] at h
  obtain ⟨h1, h2⟩ := h
  have hr : r = (splitAtComma depth none r).1 ++ tail := by
    rw [← h2, splitAtComma_append]
  refine ⟨_, h1.symm, hr, depth, ?_⟩
  rw [← hr]
  exact Prod.ext rfl h2

/-- A text without a comma and quotes lies in front of the comma. -/
theorem of_unquoted {r : List Char} (h : Reaches tail s) (hends : tail = [] ∨ ∃ u, tail = ',' :: u)
    (ht : Unquoted t) (hst : s ++ tail = t ++ r) :
    ∃ s', s = t ++ s' ∧ r = s' ++ tail ∧ Reaches tail s' := by
  induction t generalizing s with
  | nil => exact ⟨s, rfl, hst.symm, h⟩
  | cons c t ih =>
    obtain ⟨hc, hothers⟩ := List.forall_mem_cons.mp ht
    cases s with
    | nil =>
      -- The text would go on with the comma.
      rcases hends with rfl | ⟨u, rfl⟩
      · simp at hst
      · simp only [List.nil_append, List.cons_append, List.cons.injEq] at hst
        simp [← hst.1] at hc
    | cons x s =>
      simp only [List.cons_append, List.cons.injEq] at hst
      obtain ⟨rfl, hst⟩ := hst
      have hs := h.tail_of_cons fun hx => hc (List.mem_cons_of_mem _ hx)
      obtain ⟨s', rfl, hr, hs'⟩ := ih hs hothers hst
      exact ⟨s', rfl, hr, hs'⟩

/-- A token that is no comma lies in front of the comma. -/
theorem of_isText {kind : TokenKind} {r : List Char} (h : Reaches tail s)
    (hends : tail = [] ∨ ∃ u, tail = ',' :: u) (hkind : kind ≠ .comma) (ht : kind.IsText t)
    (hst : s ++ tail = t ++ r) : ∃ s', s = t ++ s' ∧ r = s' ++ tail ∧ Reaches tail s' := by
  by_cases hvalue : kind = .attributeValue
  · subst hvalue
    rcases ht with ht | ht
    · exact h.of_balanced (.quoted (.inl rfl) ht) hst
    · exact h.of_balanced (.quoted (.inr rfl) ht) hst
  · exact h.of_unquoted hends (.of_isText hkind hvalue ht) hst

end Reaches

end SelectorPath
