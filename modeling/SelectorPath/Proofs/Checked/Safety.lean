import SelectorPath.Proofs.Checked.Agreement
import SelectorPath.Proofs.Selector.Policies
import SelectorPath.Proofs.Selector.Progress

/-!
The compiler on byte positions never panics: each of its readers agrees with the reader on
characters, and so does the whole compiler (`Checked.compile_never_panics`). What has to be shown of the
notation is that signs and quotes are one byte each, that digits have no sign, and that items of
loops are not empty.
-/

namespace SelectorPath

open Text Grammar Lexicon Checked

namespace BytePlace

variable {p : BytePlace} {c : Cursor}

/-! ## Formulas -/

theorem ofList_beq_minus (s : List Char) : (String.ofList s == "-") = (s == ['-']) := by
  rw [Bool.eq_iff_iff, beq_iff_eq, beq_iff_eq, ← String.toList_inj, String.toList_ofList]
  rfl

/-- A number without a sign can be negated. -/
theorem negate_of_numberText {s : List Char} {m : Int64} (h : NumberText s m) :
    negate m = .done (-m) := by
  obtain ⟨n, -, hn, rfl⟩ := h
  refine if_neg fun hmin => ?_
  have hvalue : (Int64.ofInt n).toInt = n := Int64.toInt_ofInt_of_le (by omega) (by omega)
  rw [hmin] at hvalue
  have hlow : Int64.minValue.toInt = -2 ^ 63 := rfl
  omega

theorem signedInteger_agrees {digits : List Char} (hdigits : Headed isDigit isDigit digits)
    (negative : Bool) (h : p.At c) :
    Agrees Eq (signedInteger (String.ofList digits) negative p)
      (Formula.signedInteger digits negative c) := by
  rw [signedInteger, String.toList_ofList, Formula.signedInteger]
  cases hvalue : int64? digits with
  | none => exact congrArg (SelectorError.unexpected · .integer) h.offset
  | some magnitude =>
    cases negative with
    | false => exact rfl
    | true =>
      change Agrees Eq (negate magnitude) (.ok (-magnitude))
      rw [negate_of_numberText ((int64?_eq_some_iff hdigits magnitude).mp hvalue)]
      rfl

theorem readConstant_agrees (coefficient : Int64) (h : p.At c) :
    Agrees Reads (p.readConstant table coefficient)
      (Formula.readConstant standard coefficient c) := by
  obtain ⟨probe, hskip, hprobe⟩ := h.skip .spaces
  rw [readConstant, hskip, done_bind, Formula.readConstant]
  cases hsign : standard.token .sign (standard.skip .spaces c) with
  | none =>
    rw [hprobe.token_none hsign]
    exact ⟨rfl, h⟩
  | some found =>
    obtain ⟨sign, after⟩ := found
    obtain ⟨q, hq, hafter⟩ := hprobe.token_some hsign
    obtain ⟨r, hr, hat⟩ := hafter.skip .spaces
    simp only [hq, hr, done_bind]
    cases hdigits : standard.token .number (standard.skip .spaces after) with
    | none =>
      rw [hat.token_none hdigits, done_bind, hat.offset]
      rfl
    | some found =>
      obtain ⟨digits, last⟩ := found
      obtain ⟨q, hq, hlast⟩ := hat.token_some hdigits
      obtain ⟨hnumber, -, -⟩ := token_iff.mp hdigits
      rw [hq, done_bind]
      simp only [ofList_beq_minus]
      refine (signedInteger_agrees hnumber _ hat).bind ?_
      rintro constant _ rfl
      exact ⟨rfl, hlast⟩

theorem readSign_agrees (h : p.At c) :
    ∃ q, p.readSign table = .done ((Formula.readSign standard c).1, q) ∧
      q.At (Formula.readSign standard c).2 := by
  rw [readSign, Formula.readSign]
  cases hsign : standard.token .sign c with
  | none => exact ⟨p, by rw [h.token_none hsign]; rfl, h⟩
  | some found =>
    obtain ⟨q, hq, hafter⟩ := h.token_some hsign
    exact ⟨q, by rw [hq, done_bind]; simp only [ofList_beq_minus]; rfl, hafter⟩

/-- Digits are a number token. -/
theorem readDigits_agrees (h : p.At c) :
    ∃ q, p.readDigits table = .done ((Formula.readDigits standard c).1.map String.ofList, q) ∧
      q.At (Formula.readDigits standard c).2 ∧
      ∀ digits ∈ (Formula.readDigits standard c).1, Headed isDigit isDigit digits := by
  rw [readDigits, Formula.readDigits]
  cases hdigits : standard.token .number c with
  | none => exact ⟨p, by rw [h.token_none hdigits]; rfl, h, by simp⟩
  | some found =>
    obtain ⟨q, hq, hafter⟩ := h.token_some hdigits
    obtain ⟨hnumber, -, -⟩ := token_iff.mp hdigits
    refine ⟨q, by rw [hq]; rfl, hafter, ?_⟩
    rintro _ ⟨⟩
    exact hnumber

theorem readLinear_agrees (h : p.At c) :
    Agrees Reads (p.readLinear table) (Formula.readLinear standard c) := by
  obtain ⟨q, hsign, hq⟩ := readSign_agrees h
  obtain ⟨r, hdigits, hr, hnumber⟩ := readDigits_agrees hq
  rw [readLinear, hsign, done_bind, Formula.readLinear]
  simp only [hdigits, done_bind]
  cases hn : standard.token .n (Formula.readDigits standard (Formula.readSign standard c).2).2 with
  | none =>
    rw [hr.token_none hn]
    cases hread : (Formula.readDigits standard (Formula.readSign standard c).2).1 with
    | none => exact congrArg (SelectorError.unexpected · .formula) hq.offset
    | some digits =>
      refine (signedInteger_agrees (hnumber digits hread) _ hq).bind ?_
      rintro constant _ rfl
      exact ⟨rfl, hr⟩
  | some found =>
    obtain ⟨q', hq', hafter⟩ := hr.token_some hn
    rw [hq']
    cases hread : (Formula.readDigits standard (Formula.readSign standard c).2).1 with
    | none =>
      cases (Formula.readSign standard c).1 with
      | false => exact readConstant_agrees 1 hafter
      | true => exact readConstant_agrees (-1) hafter
    | some digits =>
      refine (signedInteger_agrees (hnumber digits hread) _ hq).bind ?_
      rintro coefficient _ rfl
      exact readConstant_agrees coefficient hafter

theorem readFormulaBody_agrees (h : p.At c) :
    Agrees Reads (p.readFormulaBody table) (Formula.readBody standard c) := by
  rw [readFormulaBody, Formula.readBody]
  cases heven : standard.token .even c with
  | some found =>
    obtain ⟨q, hq, hafter⟩ := h.token_some heven
    rw [hq]
    exact ⟨rfl, hafter⟩
  | none =>
    rw [h.token_none heven]
    simp only [done_bind]
    cases hodd : standard.token .odd c with
    | some found =>
      obtain ⟨q, hq, hafter⟩ := h.token_some hodd
      rw [hq]
      exact ⟨rfl, hafter⟩
    | none =>
      rw [h.token_none hodd]
      exact readLinear_agrees h

theorem readFormula_agrees (h : p.At c) :
    Agrees Reads (p.readFormula table) (Formula.read standard c) := by
  refine (h.expect _ _).bind fun p c h => ?_
  obtain ⟨q, hq, h⟩ := h.skip .spaces
  rw [hq, done_bind]
  refine (readFormulaBody_agrees h).bind ?_
  rintro ⟨formula, p⟩ ⟨_, c⟩ ⟨rfl, h⟩
  obtain ⟨q, hq, h⟩ := At.skip h .spaces
  simp only [hq, done_bind]
  exact (h.expect _ _).bind fun p c h => ⟨rfl, h⟩

/-! ## Attribute tests -/

/-- A text without a sign of one byte in front. -/
theorem withoutSign_cons {sign : Char} (hsign : sign.utf8Size = 1) (s : List Char) :
    withoutSign (String.ofList (sign :: s)) = .done (String.ofList s) := by
  have hlength : byteLength [sign] = 1 := by rw [byteLength, hsign]; rfl
  have hslice := slice_suffix [sign] s
  rwa [hlength] at hslice

theorem unquote_quoted {quote : Char} (hquote : quote.utf8Size = 1) {s : List Char}
    (h : QuotedText quote s) : unquote (String.ofList s) = .done (Quoted.value s) := by
  obtain ⟨body, rfl, -⟩ := h
  have hlength : byteLength [quote] = 1 := by rw [byteLength, hquote]; rfl
  have hsize : (String.ofList (quote :: (body ++ [quote]))).utf8ByteSize =
      byteLength body + 1 + 1 := by
    rw [utf8ByteSize_ofList, byteLength, byteLength_append, hlength, hquote]
    omega
  have hslice : slice (String.ofList (quote :: (body ++ [quote]))) 1 (byteLength body + 1) =
      .done (String.ofList body) :=
    slice_append [quote] body [quote] hlength.symm (by omega)
  rw [unquote, hsize, sub, if_pos (by omega), done_bind, Nat.add_sub_cancel, hslice, done_bind,
    String.toList_ofList, Quoted.value, List.tail_cons, List.dropLast_concat]
  rfl

theorem readValue_agrees (h : p.At c) :
    Agrees Reads (p.readValue table) (AttributeTest.readValue standard c) := by
  rw [readValue, AttributeTest.readValue]
  cases hquoted : standard.token .attributeValue c with
  | some found =>
    obtain ⟨q, hq, hafter⟩ := h.token_some hquoted
    have hvalue : unquote (String.ofList found.1) = .done (Quoted.value found.1) := by
      rcases (token_iff.mp hquoted).1 with htext | htext
      · exact unquote_quoted (by decide) htext
      · exact unquote_quoted (by decide) htext
    simp only [hq, done_bind, hvalue]
    exact ⟨rfl, hafter⟩
  | none =>
    rw [h.token_none hquoted]
    simp only [done_bind]
    cases hname : standard.token .identifier c with
    | some found =>
      obtain ⟨q, hq, hafter⟩ := h.token_some hname
      rw [hq]
      exact ⟨rfl, hafter⟩
    | none =>
      rw [h.token_none hname]
      exact congrArg (SelectorError.unexpected · .attributeValue) h.offset

theorem readComparison_agrees (name : String) (h : p.At c) :
    Agrees Reads (p.readComparison table name) (AttributeTest.readComparison standard name c) := by
  rw [readComparison, AttributeTest.readComparison]
  cases hclosing : standard.token .rightBracket c with
  | some found =>
    obtain ⟨q, hq, hafter⟩ := h.token_some hclosing
    rw [hq]
    exact ⟨rfl, hafter⟩
  | none =>
    rw [h.token_none hclosing]
    simp only [done_bind]
    cases hsign : standard.token .attributeOperator c with
    | none =>
      rw [h.token_none hsign]
      exact congrArg (SelectorError.unexpected · .attributeOperator) h.offset
    | some found =>
      obtain ⟨sign, after⟩ := found
      obtain ⟨q, hq, hafter⟩ := h.token_some hsign
      simp only [hq, done_bind, String.toList_ofList]
      cases AttributeOperator.ofText? sign with
      | none => exact congrArg (SelectorError.unsupportedOperator · _) h.offset
      | some operator =>
        obtain ⟨r, hr, hat⟩ := hafter.skip .spaces
        simp only [hr, done_bind]
        refine (readValue_agrees hat).bind ?_
        rintro ⟨value, p⟩ ⟨_, c⟩ ⟨rfl, h⟩
        obtain ⟨q, hq, h⟩ := At.skip h .spaces
        simp only [hq, done_bind]
        exact (h.expect _ _).bind fun p c h => ⟨rfl, h⟩

theorem readAttribute_agrees (h : p.At c) :
    Agrees Reads (p.readAttribute table) (AttributeTest.read standard c) := by
  refine (h.expect _ _).bind fun p c h => ?_
  obtain ⟨q, hq, h⟩ := h.skip .spaces
  simp only [hq, done_bind]
  cases hname : standard.token .attributeName (standard.skip .spaces c) with
  | none =>
    rw [h.token_none hname]
    exact congrArg (SelectorError.unexpected · .attributeName) h.offset
  | some found =>
    obtain ⟨q, hq, hafter⟩ := h.token_some hname
    obtain ⟨r, hr, hat⟩ := hafter.skip .spaces
    simp only [hq, hr, done_bind]
    exact readComparison_agrees _ hat

/-! ## Compounds -/

/-- Two readers agree at all places. -/
def SameReader {α : Type} (reader : BytePlace → Checked (α × BytePlace)) (reader' : Reader α) :
    Prop :=
  ∀ p c, p.At c → Agrees Reads (reader p) (reader' c)

theorem readNegation_agrees {argument : BytePlace → Checked (Compound × BytePlace)}
    {argument' : Reader Compound} (hargument : SameReader argument argument') (h : p.At c) :
    Agrees Reads (p.readNegation table argument) (Qualifier.readNegation standard argument' c) := by
  refine (h.expect _ _).bind fun p c h => ?_
  refine (hargument p c h).bind ?_
  rintro ⟨compound, p⟩ ⟨_, c⟩ ⟨rfl, h⟩
  obtain ⟨q, hq, h⟩ := At.skip h .spaces
  simp only [hq, done_bind]
  exact (h.expect _ _).bind fun p c h => ⟨rfl, h⟩

/-- A pseudo-class is read where one stands. -/
theorem readPseudoClass_agrees {argument : Option (BytePlace → Checked (Compound × BytePlace))}
    {argument' : Option (Reader Compound)} (hargument : Option.Rel SameReader argument argument')
    (h : p.At c) (hpeek : standard.peek .pseudoClass c) :
    Agrees Reads (p.readPseudoClass table argument)
      (Qualifier.readPseudoClass standard argument' c) := by
  rw [readPseudoClass, Qualifier.readPseudoClass]
  cases htoken : standard.token .pseudoClass c with
  | none => simp [Lexicon.peek, htoken] at hpeek
  | some found =>
    obtain ⟨text, after⟩ := found
    obtain ⟨q, hq, hafter⟩ := h.token_some htoken
    obtain ⟨⟨name, rfl, -⟩, -, -⟩ := token_iff.mp htoken
    simp only [hq, done_bind, withoutSign_cons (by decide : ':'.utf8Size = 1),
      String.toList_ofList, List.tail_cons]
    cases PseudoClass.ofName? (String.ofList (name.map Char.toLower)) with
    | none => exact congrArg (SelectorError.unsupportedPseudoClass · _) h.offset
    | some pseudoClass =>
      cases pseudoClass with
      | place place among => exact ⟨rfl, hafter⟩
      | nth among =>
        refine (readFormula_agrees hafter).bind ?_
        rintro ⟨formula, p⟩ ⟨_, c⟩ ⟨rfl, h⟩
        exact ⟨rfl, h⟩
      | negation =>
        cases hargument with
        | none => exact congrArg (SelectorError.nestedTooDeep · _) h.offset
        | some hreader => exact readNegation_agrees hreader hafter

theorem readQualifier_agrees {argument : Option (BytePlace → Checked (Compound × BytePlace))}
    {argument' : Option (Reader Compound)} (hargument : Option.Rel SameReader argument argument')
    (h : p.At c) :
    Agrees (Option.Rel Reads) (p.readQualifier table argument)
      (Qualifier.read? standard argument' c) := by
  rw [readQualifier, Qualifier.read?]
  cases hclass : standard.token .className c with
  | some found =>
    obtain ⟨text, after⟩ := found
    obtain ⟨q, hq, hafter⟩ := h.token_some hclass
    obtain ⟨⟨name, rfl, -⟩, -, -⟩ := token_iff.mp hclass
    simp only [hq, done_bind, withoutSign_cons (by decide : '.'.utf8Size = 1)]
    exact .some ⟨rfl, hafter⟩
  | none =>
    rw [h.token_none hclass]
    simp only [done_bind]
    cases hid : standard.token .id c with
    | some found =>
      obtain ⟨text, after⟩ := found
      obtain ⟨q, hq, hafter⟩ := h.token_some hid
      obtain ⟨⟨name, rfl, -⟩, -, -⟩ := token_iff.mp hid
      simp only [hq, done_bind, withoutSign_cons (by decide : '#'.utf8Size = 1)]
      exact .some ⟨rfl, hafter⟩
    | none =>
      simp only [h.token_none hid, h.peek, done_bind]
      split
      · next hpeek =>
        exact (readPseudoClass_agrees hargument h hpeek).bind_map fun a b hab => .some hab
      · split
        · refine (readAttribute_agrees h).bind_map ?_
          rintro ⟨test, p⟩ ⟨_, c⟩ ⟨rfl, h⟩
          exact .some ⟨rfl, h⟩
        · exact .none

theorem readElement_agrees (h : p.At c) :
    ∃ q, p.readElement table = .done ((Compound.readElement standard c).1, q) ∧
      q.At (Compound.readElement standard c).2 := by
  rw [readElement, Compound.readElement]
  cases huniversal : standard.token .universal c with
  | some found =>
    obtain ⟨q, hq, hafter⟩ := h.token_some huniversal
    exact ⟨q, by rw [hq]; rfl, hafter⟩
  | none =>
    rw [h.token_none huniversal]
    simp only [done_bind]
    cases hname : standard.token .element c with
    | some found =>
      obtain ⟨q, hq, hafter⟩ := h.token_some hname
      exact ⟨q, by rw [hq]; rfl, hafter⟩
    | none => exact ⟨p, by rw [h.token_none hname]; rfl, h⟩

/-- Of the place where a compound starts, only the offset counts. -/
theorem check_congr {start start' : Cursor} (h : start.offset = start'.offset)
    (element : Option ElementTest) (name : Option String) (qualifiers : List (Nat × Qualifier)) :
    Compound.check start element name qualifiers =
      Compound.check start' element name qualifiers := by
  unfold Compound.check
  rw [h]

theorem readCompoundWith_agrees
    {argument : Option String → Option (BytePlace → Checked (Compound × BytePlace))}
    {argument' : Option String → Option (Reader Compound)}
    (hargument : ∀ name, Option.Rel SameReader (argument name) (argument' name))
    (hprogress : ∀ name, ∀ read ∈ argument' name, Reader.Progresses read)
    (enclosing : Option String) :
    SameReader (readCompoundWith table argument enclosing)
      (Compound.readWith standard argument' enclosing) := by
  intro p c h
  obtain ⟨start, hskip, hstart⟩ := h.skip .spaces
  obtain ⟨q, hq, hafter⟩ := readElement_agrees hstart
  rw [readCompoundWith, hskip, done_bind, hq, done_bind, Compound.readWith]
  refine (readWhile_agrees (fun p c h => readQualifier_agrees (hargument _) h)
    (fun _ _ _ => Qualifier.read?_before (hprogress _)) hafter).bind ?_
  rintro ⟨qualifiers, p⟩ ⟨_, d⟩ ⟨rfl, hlast⟩
  have hcheck (element : Option ElementTest) (name : Option String) :
      Compound.check ⟨start.offset, []⟩ element name qualifiers =
        Compound.check (standard.skip .spaces c) element name qualifiers :=
    check_congr hstart.offset element name qualifiers
  simp only [hcheck]
  refine (agrees_ofExcept _).bind ?_
  rintro compound _ rfl
  exact ⟨rfl, hlast⟩

theorem readNested_agrees (levels : Nat) (enclosing : Option String) :
    SameReader (readNested table levels enclosing)
      (Compound.readNested standard levels enclosing) := by
  induction levels generalizing enclosing with
  | zero =>
    refine readCompoundWith_agrees (fun _ => .none) ?_ enclosing
    rintro name read ⟨⟩
  | succ levels ih =>
    refine readCompoundWith_agrees (fun name => .some (ih name)) ?_ enclosing
    rintro name read ⟨⟩
    exact Compound.readNested_progresses standard levels name

/-! ## Selectors -/

/-- The signs are tried in the same order. -/
theorem readCombinatorSign_agrees (h : p.At c) (signs : List (TokenKind × Combinator)) :
    ∃ found, p.readCombinatorSign table signs = .done found ∧
      Option.Rel Reads found (signs.findSome? fun sign =>
        (standard.token sign.1 c).map fun found => (sign.2, found.2)) := by
  induction signs with
  | nil => exact ⟨none, rfl, .none⟩
  | cons sign rest ih =>
    rw [readCombinatorSign, List.findSome?_cons]
    cases htoken : standard.token sign.1 c with
    | none =>
      rw [h.token_none htoken]
      exact ih
    | some found =>
      obtain ⟨q, hq, hafter⟩ := h.token_some htoken
      rw [hq]
      exact ⟨_, rfl, .some ⟨rfl, hafter⟩⟩

theorem readCombinator_agrees (h : p.At c) :
    ∃ found, p.readCombinator table = .done found ∧
      Option.Rel Reads found (Combinator.read? standard c) := by
  obtain ⟨found, hsigns, hrel⟩ := readCombinatorSign_agrees h Combinator.signs
  rw [readCombinator, hsigns, done_bind, Combinator.read?]
  simp only
  cases hsigned : Combinator.signs.findSome? fun sign =>
      (standard.token sign.1 c).map fun found => (sign.2, found.2) with
  | some result =>
    rw [hsigned] at hrel
    cases hrel with
    | some hab => exact ⟨_, rfl, .some hab⟩
  | none =>
    rw [hsigned] at hrel
    cases hrel
    simp only
    cases hspaces : standard.token .ancestorOf c with
    | none => exact ⟨none, by rw [h.token_none hspaces]; rfl, .none⟩
    | some result =>
      obtain ⟨q, hq, hafter⟩ := h.token_some hspaces
      simp only [hq, done_bind, hafter.atEnd, h.peek, hafter.peek]
      cases result.2.atEnd with
      | true => exact ⟨none, rfl, .none⟩
      | false =>
        cases standard.peek .comma c with
        | true => exact ⟨none, rfl, .none⟩
        | false =>
          cases standard.peek .rightParen result.2 with
          | true => exact ⟨none, rfl, .none⟩
          | false => exact ⟨_, rfl, .some ⟨rfl, hafter⟩⟩

theorem readStep_agrees (h : p.At c) :
    Agrees (Option.Rel Reads) (p.readStep table) (Step.read? standard c) := by
  obtain ⟨found, hfound, hrel⟩ := readCombinator_agrees h
  rw [readStep, hfound, done_bind, Step.read?]
  cases hc : Combinator.read? standard c with
  | none =>
    rw [hc] at hrel
    cases hrel
    exact .none
  | some result =>
    rw [hc] at hrel
    cases hrel with
    | @some a _ hab =>
    obtain ⟨combinator, q⟩ := a
    obtain ⟨rfl, hq⟩ := hab
    refine (readNested_agrees _ _ q result.2 hq).bind_map ?_
    rintro ⟨compound, p⟩ ⟨_, c⟩ ⟨rfl, h⟩
    exact .some ⟨rfl, h⟩

theorem readScope_agrees (h : p.At c) :
    ∃ combinator q d, p.readScope table = .done (combinator, q) ∧ q.At d ∧
      Selector.read standard c = (do
        let x ← Compound.read standard d
        let y ← x.2.readWhile (Step.read? standard)
        return ((⟨⟨combinator, x.1⟩ :: y.1.map Prod.snd⟩ : Selector), y.2)) := by
  rw [readScope, Selector.read]
  cases hparent : standard.token .parentOf c with
  | none => exact ⟨.descendant, p, c, by rw [h.token_none hparent]; rfl, h, rfl⟩
  | some found =>
    obtain ⟨q, hq, hafter⟩ := h.token_some hparent
    exact ⟨.child, q, found.2, by rw [hq]; rfl, hafter, rfl⟩

theorem readSelector_agrees : SameReader (readSelector table) (Selector.read standard) := by
  intro p c h
  obtain ⟨combinator, q, d, hscope, hq, hread⟩ := readScope_agrees h
  rw [readSelector, hscope, done_bind, hread]
  refine (readNested_agrees _ _ q d hq).bind ?_
  rintro ⟨compound, p⟩ ⟨_, c⟩ ⟨rfl, h⟩
  refine (readWhile_agrees (fun p c h => readStep_agrees h)
    (fun c step d hstep => Step.round_before c d ⟨step, hstep⟩) h).bind ?_
  rintro ⟨steps, p⟩ ⟨_, c⟩ ⟨rfl, h⟩
  exact ⟨rfl, h⟩

/-! ## Lists -/

/-- Looking for the next comma counts the bytes of the text before it. The depth is at most the
number of bytes that were passed, so it can always be counted up. -/
theorem commaPosition_eq {length index depth : Nat} {quote : Option Char} {s : List Char}
    (hlength : length = index + byteLength s) (hdepth : depth ≤ index) :
    commaPosition length index depth quote false s =
      .done (index + byteLength (splitAtComma depth quote s).1) := by
  induction hn : s.length using Nat.strongRecOn generalizing index depth quote s with
  | ind n ih =>
  cases s with
  | nil =>
    rw [commaPosition, splitAtComma, hlength]
    rfl
  | cons c rest =>
    have hshort : rest.length < n := by simp [← hn]
    have hsize := c.utf8Size_pos
    have hrest : length = index + c.utf8Size + byteLength rest := by
      rw [hlength, byteLength, Nat.add_assoc]
    cases quote with
    | some quote =>
      by_cases hc : c = '\\'
      · subst hc
        rw [commaPosition, if_neg (by decide), if_pos rfl]
        cases rest with
        | nil =>
          -- A backslash at the end takes nothing with it.
          rw [commaPosition, hlength]
          simp [splitAtComma]
        | cons d rest =>
          have hlt : rest.length < n := Nat.lt_of_succ_lt hshort
          have hnext : length = index + '\\'.utf8Size + d.utf8Size + byteLength rest := by
            rw [hrest, byteLength, Nat.add_assoc _ d.utf8Size]
          rw [commaPosition, if_pos rfl, splitAtComma_escaped, byteLength, byteLength]
          refine (ih _ hlt hnext (by omega) rfl).trans ?_
          rw [Nat.add_assoc, Nat.add_assoc]
      · rw [commaPosition, if_neg (by decide), if_neg hc, splitAtComma_quoted _ _ hc, byteLength]
        refine (ih _ hshort hrest (by omega) rfl).trans ?_
        rw [Nat.add_assoc]
    | none =>
      rw [commaPosition, splitAtComma_cons_none]
      by_cases hcomma : c = ',' ∧ depth = 0
      · rw [if_pos hcomma, if_pos hcomma]
        rfl
      rw [if_neg hcomma, if_neg hcomma]
      by_cases hopens : c = '(' ∨ c = '['
      · have hplain : ¬(c = '"' ∨ c = '\'') := by rcases hopens with rfl | rfl <;> decide
        simp only [if_pos hopens, if_neg hplain, add, byteLength]
        rw [if_pos (by omega), done_bind]
        refine (ih _ hshort hrest (by omega) rfl).trans ?_
        rw [Nat.add_assoc]
      · simp only [if_neg hopens, byteLength]
        refine (ih _ hshort hrest (by split <;> omega) rfl).trans ?_
        rw [Nat.add_assoc]

theorem resync_agrees (h : p.At c) :
    ∃ q, p.resync = .done q ∧ q.offset = p.offset + byteLength (splitAtComma 0 none c.rest).1 ∧
      q.At (c.advance (splitAtComma 0 none c.rest).1 (splitAtComma 0 none c.rest).2) := by
  obtain ⟨q, hadvance, hq, hoffset⟩ :=
    h.advance (.advance c (splitAtComma_append 0 none c.rest).symm)
  have hposition : commaPosition (String.ofList c.rest).utf8ByteSize 0 0 none false
      (String.ofList c.rest).toList = .done (byteLength (splitAtComma 0 none c.rest).1) := by
    rw [String.toList_ofList, commaPosition_eq ?_ (Nat.le_refl 0), Nat.zero_add]
    rw [utf8ByteSize_ofList, Nat.zero_add]
  exact ⟨q, by rw [resync, h.rest, done_bind, hposition, done_bind, hadvance], hoffset, hq⟩

theorem skipMember_agrees (h : p.At c) (e : SelectorError) :
    ∃ q, p.skipMember e = .done ((SelectorList.skipMember c e).1, q) ∧
      q.At (SelectorList.skipMember c e).2 := by
  obtain ⟨q, hresync, hoffset, hq⟩ := resync_agrees h
  have hslice := slice_prefix (splitAtComma 0 none c.rest).1 (splitAtComma 0 none c.rest).2
  rw [splitAtComma_append] at hslice
  refine ⟨q, ?_, hq⟩
  rw [skipMember, hresync, done_bind, h.rest, done_bind, sub, if_pos (by omega), done_bind, hoffset,
    Nat.add_sub_cancel_left, hslice, done_bind, String.toList_ofList]
  rfl

theorem atBoundary_agrees (h : p.At c) :
    p.atBoundary table = .done (SelectorList.atBoundary standard c) := by
  obtain ⟨q, hq, hafter⟩ := h.skip .spaces
  rw [atBoundary, h.peek, done_bind, SelectorList.atBoundary]
  cases standard.peek .comma c with
  | true => rfl
  | false =>
    simp only [Bool.false_eq_true, if_false, hq, done_bind, hafter.atEnd, Bool.false_or]
    rfl

theorem trailing_agrees (h : p.At c) :
    ∃ q, p.skip table .spaces = .done q ∧ q.At (standard.skip .spaces c) ∧
      q.trailing = .done (SelectorList.trailing standard c) := by
  obtain ⟨q, hq, hafter⟩ := h.skip .spaces
  refine ⟨q, hq, hafter, ?_⟩
  rw [trailing, hafter.rest, done_bind, hafter.offset]
  rfl

theorem readMember_agrees (policy : ListPolicy) :
    SameReader (readMember table policy) (SelectorList.readMember standard policy) := by
  intro p c h
  have hread := readSelector_agrees p c h
  unfold readMember SelectorList.readMember
  cases hselector : Selector.read standard c with
  | error e =>
    rw [hselector, agrees_error_iff] at hread
    rw [hread]
    cases policy with
    | strict => rfl
    | skipInvalid =>
      obtain ⟨q, hq, hlast⟩ := skipMember_agrees h e
      simp only
      rw [hq]
      exact ⟨rfl, hlast⟩
  | ok found =>
    rw [hselector] at hread
    obtain ⟨⟨selector, q⟩, hfound, rfl, hq⟩ := agrees_ok_iff.mp hread
    rw [hfound]
    cases policy with
    | strict => exact ⟨rfl, hq⟩
    | skipInvalid =>
      simp only
      rw [atBoundary_agrees hq, done_bind]
      cases SelectorList.atBoundary standard found.2 with
      | true => exact ⟨rfl, hq⟩
      | false =>
        obtain ⟨r, hr, -, htrailing⟩ := trailing_agrees hq
        obtain ⟨last, hlast, hat⟩ := skipMember_agrees h (SelectorList.trailing standard found.2)
        simp only [Bool.false_eq_true, if_false, hr, htrailing, hlast, done_bind]
        exact ⟨rfl, hat⟩

theorem ofMembers_agrees (members : List SelectorList.Member) :
    Agrees Eq (ofMembers members) (SelectorList.ofMembers members) := by
  unfold ofMembers SelectorList.ofMembers
  cases members.filterMap SelectorList.Member.kept? with
  | nil => cases members.filterMap SelectorList.Member.skipped? <;> rfl
  | cons selector selectors => rfl

theorem readComma_agrees (h : p.At c) :
    Agrees (Option.Rel At) (p.readComma table) (.ok (SelectorList.comma standard c)) := by
  rw [readComma, SelectorList.comma]
  cases hcomma : standard.token .comma c with
  | none =>
    rw [h.token_none hcomma]
    exact .none
  | some found =>
    obtain ⟨q, hq, hafter⟩ := h.token_some hcomma
    rw [hq]
    exact .some hafter

theorem readList_agrees (policy : ListPolicy) :
    SameReader (readList table policy) (SelectorList.read standard policy) := by
  intro p c h
  refine (readSeparated_agrees (fun p c h => readComma_agrees h) (readMember_agrees policy)
    (fun c member d e hmember hcomma =>
      SelectorList.round_before c e ⟨member, d, hmember, hcomma⟩) h).bind ?_
  rintro ⟨members, p⟩ ⟨_, c⟩ ⟨rfl, h⟩
  refine (ofMembers_agrees members).bind ?_
  rintro list _ rfl
  exact ⟨rfl, h⟩

end BytePlace

namespace Checked

/-- Reading a text after its length was checked. -/
theorem ofText_agrees_unlimited (anchor : Anchor) (policy : ListPolicy) (text : String) :
    Agrees Eq (ofText table ⟨anchor, policy, none⟩ text)
      (SelectorList.ofText standard ⟨anchor, policy, none⟩ text) := by
  rw [SelectorList.ofText_eq_bind]
  refine (BytePlace.readList_agrees policy _ _ (.start text)).bind ?_
  rintro ⟨list, p⟩ ⟨_, c⟩ ⟨rfl, h⟩
  obtain ⟨q, hq, hlast, htrailing⟩ := BytePlace.trailing_agrees h
  simp only [hq, done_bind, hlast.atEnd, htrailing, SelectorList.finish]
  cases (standard.skip .spaces c).atEnd with
  | true => rfl
  | false => rfl

theorem ofText_agrees (options : Options) (text : String) :
    Agrees Eq (ofText table options text) (SelectorList.ofText standard options text) := by
  obtain ⟨anchor, policy, limit⟩ := options
  cases limit with
  | none => exact ofText_agrees_unlimited anchor policy text
  | some limit =>
    by_cases hlimit : limit < byteLength text.toList
    · rw [SelectorList.ofText_of_lt hlimit, byteLength_toList]
      rw [byteLength_toList] at hlimit
      simp [ofText, hlimit, Agrees]
    · rw [SelectorList.ofText_of_not_lt hlimit]
      rw [byteLength_toList] at hlimit
      simpa [ofText, hlimit] using ofText_agrees_unlimited anchor policy text

/-- No input makes the compiler panic. On byte positions, where every part that is cut out, every
entry and every sum is checked, it reads the list and gives the text that it gives on characters. -/
theorem compile_never_panics (options : Options) (text : String) :
    ofText table options text = ofExcept (SelectorList.ofText .standard options text) ∧
      compile table options text = ofExcept (SelectorPath.compile .standard options text) ∧
      ∀ panic, ofText table options text ≠ .panicked panic ∧
        compile table options text ≠ .panicked panic := by
  have hlist := ofText_agrees options text
  have htext : Agrees Eq (compile table options text)
      (SelectorPath.compile .standard options text) := by
    refine hlist.bind ?_
    rintro list _ rfl
    rfl
  refine ⟨hlist.eq_ofExcept, htext.eq_ofExcept, fun panic => ?_⟩
  rw [hlist.eq_ofExcept, htext.eq_ofExcept]
  exact ⟨ofExcept_ne_panicked _ panic, ofExcept_ne_panicked _ panic⟩

end Checked

end SelectorPath
