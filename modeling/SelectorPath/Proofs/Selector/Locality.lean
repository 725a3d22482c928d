import SelectorPath.Proofs.Selector.Segments

/-!
Readers do not see past the comma behind a part of a text. `Part.Same` relates the places in the
part, read alone, to the same places in the text, and `Part.Agrees` what is read there: the same
results and the same errors, whose positions are counted from the start of the text and lie in
the part. All readers up to that of selectors are `Part.Local` in this sense
(`Selector.read_local`).
-/

namespace SelectorPath

open Text Grammar Lexicon

/-! ## Parts of a text -/

namespace Text

/-- The text behind its first `n` bytes. -/
def dropBytes : Nat → List Char → List Char
  | 0, s => s
  | _ + 1, [] => []
  | n + 1, c :: s => dropBytes (n + 1 - c.utf8Size) s

theorem dropBytes_append (s t : List Char) : dropBytes (byteLength s) (s ++ t) = t := by
  induction s with
  | nil => simp [byteLength, dropBytes]
  | cons c s ih =>
    obtain ⟨n, hn⟩ := Nat.exists_eq_add_of_lt c.utf8Size_pos
    have hlength : byteLength (c :: s) = n + byteLength s + 1 := by
      rw [byteLength]
      omega
    have hrest : n + byteLength s + 1 - c.utf8Size = byteLength s := by omega
    rw [hlength, List.cons_append, dropBytes, hrest, ih]

end Text

/-- The error in a text for an error in a part of it that starts at an offset. -/
def SelectorError.placed (input : List Char) (start : Nat) : SelectorError → SelectorError
  | .unexpected position expected => .unexpected (start + position) expected
  | .unsupportedPseudoClass position name => .unsupportedPseudoClass (start + position) name
  | .unsupportedOperator position operator => .unsupportedOperator (start + position) operator
  | .nestedTooDeep position limit => .nestedTooDeep (start + position) limit
  | .trailing position _ =>
    .trailing (start + position) (String.ofList (dropBytes (start + position) input))
  | .tooLong length limit => .tooLong length limit

/-- A part of a text, which ends at a comma or at the end of the text. -/
structure Part where
  before : List Char
  text : List Char
  tail : List Char
  ends : tail = [] ∨ ∃ t, tail = ',' :: t

namespace Part

variable (part : Part)

def input : List Char := part.before ++ (part.text ++ part.tail)

/-- The part as a segment of the text. -/
def segment : Segment := ⟨byteLength part.before, part.text⟩

/-- The same place, in the part alone and in the text. -/
structure Same (c d : Cursor) : Prop where
  takes : ∃ s, (⟨0, part.text⟩ : Cursor).Takes s c ∧
    (⟨part.segment.start, part.text ++ part.tail⟩ : Cursor).Takes s d
  reaches : Reaches part.tail c.rest

/-- What is read in the part alone and in the text. -/
inductive Agrees {α β : Type} (R : α → β → Prop) :
    Except SelectorError α → Except SelectorError β → Prop
  | error {e : SelectorError} :
      part.segment.Holds (e.placed part.input part.segment.start).position →
      Agrees R (.error e) (.error (e.placed part.input part.segment.start))
  | ok {a : α} {b : β} : R a b → Agrees R (.ok a) (.ok b)

/-- The same result, and the same place after it. -/
def SamePair {α : Type} (x y : α × Cursor) : Prop := x.1 = y.1 ∧ part.Same x.2 y.2

/-- A reader reads the same in the part alone and in the text. -/
def Local {α : Type} (reader : Reader α) : Prop :=
  ∀ c d, part.Same c d → part.Agrees part.SamePair (reader c) (reader d)

variable {part}

namespace Same

variable {c d : Cursor}

theorem rest (h : part.Same c d) : d.rest = c.rest ++ part.tail := by
  obtain ⟨s, hc, hd⟩ := h.takes
  have htext : part.text ++ part.tail = s ++ (c.rest ++ part.tail) := by
    rw [← List.append_assoc]
    exact congrArg (· ++ part.tail) hc.rest
  exact List.append_cancel_left (hd.rest.symm.trans htext)

theorem offset (h : part.Same c d) : d.offset = part.segment.start + c.offset := by
  obtain ⟨s, hc, hd⟩ := h.takes
  have hoffset : c.offset = byteLength s := by simpa using hc.offset
  rw [hoffset]
  exact hd.offset

theorem holds (h : part.Same c d) : part.segment.Holds (part.segment.start + c.offset) := by
  obtain ⟨s, hc, -⟩ := h.takes
  have hoffset : c.offset = byteLength s := by simpa using hc.offset
  have hsize : byteLength part.text = byteLength s + byteLength c.rest := by
    rw [← byteLength_append]
    exact congrArg byteLength hc.rest
  refine ⟨Nat.le_add_right _ _, Nat.add_le_add_left ?_ _⟩
  rw [hoffset, segment, hsize]
  exact Nat.le_add_right _ _

theorem dropBytes_input (h : part.Same c d) :
    dropBytes (part.segment.start + c.offset) part.input = d.rest := by
  obtain ⟨s, hc, hd⟩ := h.takes
  have hoffset : c.offset = byteLength s := by simpa using hc.offset
  have hinput : part.input = part.before ++ s ++ d.rest := by
    rw [List.append_assoc]
    exact congrArg (part.before ++ ·) hd.rest
  rw [hoffset, hinput, segment, ← byteLength_append, dropBytes_append]

theorem length_lt_iff (h : part.Same c d) {c' d' : Cursor} (h' : part.Same c' d') :
    d'.rest.length < d.rest.length ↔ c'.rest.length < c.rest.length := by
  rw [h.rest, h'.rest, List.length_append, List.length_append]
  omega

/-- The places after a text. -/
theorem take (h : part.Same c d) {s : List Char} {c' d' : Cursor} (hc : c.Takes s c')
    (hd : d.Takes s d') (hreaches : Reaches part.tail c'.rest) : part.Same c' d' := by
  obtain ⟨t, htc, htd⟩ := h.takes
  exact ⟨⟨t ++ s, htc.trans hc, htd.trans hd⟩, hreaches⟩

theorem headIs_eq (h : part.Same c d) {p : Char → Bool} (hp : p ',' = false) :
    headIs p d.rest = headIs p c.rest := by
  rw [h.rest]
  cases hrest : c.rest with
  | nil =>
    rcases part.ends with htail | ⟨t, htail⟩
    · simp [htail]
    · simp [htail, hp]
  | cons x r => rfl

/-- At the same place the same token is found, unless it is the comma. -/
theorem token (h : part.Same c d) (kind : TokenKind) (hkind : kind ≠ .comma) :
    (standard.token kind c = none ∧ standard.token kind d = none) ∨
      ∃ text c' d', standard.token kind c = some (text, c') ∧
        standard.token kind d = some (text, d') ∧ part.Same c' d' := by
  have hgoesOn : kind.goesOn ',' = false := by cases kind <;> decide +kernel
  cases hd : standard.token kind d with
  | some found =>
    -- The token lies in front of the comma, so it is in the part.
    obtain ⟨text, d'⟩ := found
    obtain ⟨htext, htakes, hends⟩ := token_iff.mp hd
    have hsplit : c.rest ++ part.tail = text ++ d'.rest := h.rest.symm.trans htakes.rest
    obtain ⟨r, hr, -, hreaches⟩ := h.reaches.of_isText part.ends hkind htext hsplit
    have hc := Cursor.Takes.advance c hr
    have hsame := h.take hc htakes hreaches
    refine .inr ⟨text, _, d', token_iff.mpr ⟨htext, hc, ?_⟩, rfl, hsame⟩
    rw [← hsame.headIs_eq hgoesOn, hends]
  | none =>
    refine .inl ⟨?_, rfl⟩
    cases hc : standard.token kind c with
    | none => rfl
    | some found =>
      -- The comma does not make a token longer that ends with the part.
      obtain ⟨text, c'⟩ := found
      obtain ⟨htext, htakes, hends⟩ := token_iff.mp hc
      have hrest : d.rest = text ++ (c'.rest ++ part.tail) := by
        rw [h.rest, htakes.rest, List.append_assoc]
      obtain ⟨r, hr, -, hreaches⟩ := h.reaches.of_isText part.ends hkind htext
        (h.rest.symm.trans hrest)
      obtain rfl : c'.rest = r := List.append_cancel_left (htakes.rest.symm.trans hr)
      have hsame := h.take htakes (.advance d hrest) hreaches
      have hsome := token_iff.mpr ⟨htext, .advance d hrest, (hsame.headIs_eq hgoesOn).trans hends⟩
      simp [hsome] at hd

theorem skip_spaces (h : part.Same c d) :
    part.Same (standard.skip .spaces c) (standard.skip .spaces d) := by
  unfold skip
  obtain ⟨hc, hd⟩ | ⟨text, c', d', hc, hd, h'⟩ := h.token .spaces (by decide)
  · simpa [hc, hd] using h
  · simpa [hc, hd] using h'

theorem peek_eq (h : part.Same c d) (kind : TokenKind) (hkind : kind ≠ .comma) :
    standard.peek kind d = standard.peek kind c := by
  unfold peek
  obtain ⟨hc, hd⟩ | ⟨text, c', d', hc, hd, -⟩ := h.token kind hkind <;> simp [hc, hd]

theorem expect (h : part.Same c d) (kind : TokenKind) (hkind : kind ≠ .comma)
    (expected : Expectation) : part.Agrees part.Same (standard.expect kind expected c)
      (standard.expect kind expected d) := by
  unfold Lexicon.expect
  obtain ⟨hc, hd⟩ | ⟨text, c', d', hc, hd, h'⟩ := h.token kind hkind
  · simp only [hc, hd, h.offset]
    exact .error h.holds
  · simp only [hc, hd]
    exact .ok h'

end Same

namespace Agrees

variable {α β γ δ : Type} {R : α → β → Prop} {S : γ → δ → Prop}

theorem cases {x : Except SelectorError α} {y : Except SelectorError β} (h : part.Agrees R x y) :
    (∃ e, x = .error e ∧ y = .error (e.placed part.input part.segment.start) ∧
        part.segment.Holds (e.placed part.input part.segment.start).position) ∨
      ∃ a b, x = .ok a ∧ y = .ok b ∧ R a b := by
  cases h with
  | error he => exact .inl ⟨_, rfl, rfl, he⟩
  | ok hab => exact .inr ⟨_, _, rfl, rfl, hab⟩

theorem bind {x : Except SelectorError α} {y : Except SelectorError β}
    {f : α → Except SelectorError γ} {g : β → Except SelectorError δ} (h : part.Agrees R x y)
    (hfg : ∀ a b, R a b → part.Agrees S (f a) (g b)) : part.Agrees S (x >>= f) (y >>= g) := by
  cases h with
  | error he => exact .error he
  | ok hab => exact hfg _ _ hab

theorem map {x : Except SelectorError α} {y : Except SelectorError β} {f : α → γ} {g : β → δ}
    (h : part.Agrees R x y) (hfg : ∀ a b, R a b → S (f a) (g b)) :
    part.Agrees S (x.map f) (y.map g) := by
  cases h with
  | error he => exact .error he
  | ok hab => exact .ok (hfg _ _ hab)

end Agrees

end Part

variable {part : Part}

/-! ## Formulas -/

namespace Formula

theorem signedInteger_local {c d : Cursor} (h : part.Same c d) (digits : List Char)
    (negative : Bool) :
    part.Agrees Eq (signedInteger digits negative c) (signedInteger digits negative d) := by
  unfold signedInteger
  cases Text.int64? digits with
  | none =>
    rw [h.offset]
    exact .error h.holds
  | some magnitude => exact .ok rfl

theorem readConstant_local (coefficient : Int64) :
    part.Local (readConstant standard coefficient) := by
  intro c d h
  unfold readConstant
  obtain ⟨hc, hd⟩ | ⟨sign, c', d', hc, hd, h'⟩ := h.skip_spaces.token .sign (by decide)
  · simp only [hc, hd]
    exact .ok ⟨rfl, h⟩
  simp only [hc, hd]
  obtain ⟨hc, hd⟩ | ⟨digits, c', d', hc, hd, h''⟩ :=
    h'.skip_spaces.token .number (by decide)
  · simp only [hc, hd, h'.skip_spaces.offset]
    exact .error h'.skip_spaces.holds
  · simp only [hc, hd]
    refine (signedInteger_local h'.skip_spaces digits (sign == ['-'])).bind ?_
    rintro constant _ rfl
    exact .ok ⟨rfl, h''⟩

theorem readSign_local {c d : Cursor} (h : part.Same c d) :
    ∃ negative c' d', readSign standard c = (negative, c') ∧
      readSign standard d = (negative, d') ∧ part.Same c' d' := by
  unfold readSign
  obtain ⟨hc, hd⟩ | ⟨sign, c', d', hc, hd, h'⟩ := h.token .sign (by decide)
  · exact ⟨false, c, d, by simp [hc], by simp [hd], h⟩
  · exact ⟨sign == ['-'], c', d', by simp [hc], by simp [hd], h'⟩

theorem readDigits_local {c d : Cursor} (h : part.Same c d) :
    ∃ digits c' d', readDigits standard c = (digits, c') ∧
      readDigits standard d = (digits, d') ∧ part.Same c' d' := by
  unfold readDigits
  obtain ⟨hc, hd⟩ | ⟨digits, c', d', hc, hd, h'⟩ := h.token .number (by decide)
  · exact ⟨none, c, d, by simp [hc], by simp [hd], h⟩
  · exact ⟨some digits, c', d', by simp [hc], by simp [hd], h'⟩

theorem readLinear_local : part.Local (readLinear standard) := by
  intro c d h
  obtain ⟨negative, c1, d1, hc1, hd1, hsign⟩ := readSign_local h
  obtain ⟨digits, c2, d2, hc2, hd2, hdigits⟩ := readDigits_local hsign
  unfold readLinear
  simp only [hc1, hd1, hc2, hd2]
  obtain ⟨hc, hd⟩ | ⟨n, c', d', hc, hd, h'⟩ := hdigits.token .n (by decide)
  · simp only [hc, hd]
    cases digits with
    | none =>
      simp only [hsign.offset]
      exact .error hsign.holds
    | some digits =>
      refine (signedInteger_local hsign digits negative).bind ?_
      rintro constant _ rfl
      exact .ok ⟨rfl, hdigits⟩
  · simp only [hc, hd]
    cases digits with
    | none => exact readConstant_local _ c' d' h'
    | some digits =>
      refine (signedInteger_local hsign digits negative).bind ?_
      rintro coefficient _ rfl
      exact readConstant_local coefficient c' d' h'

theorem readBody_local : part.Local (readBody standard) := by
  intro c d h
  unfold readBody
  obtain ⟨hc, hd⟩ | ⟨even, c', d', hc, hd, h'⟩ := h.token .even (by decide)
  · simp only [hc, hd]
    obtain ⟨hc, hd⟩ | ⟨odd, c', d', hc, hd, h'⟩ := h.token .odd (by decide)
    · simp only [hc, hd]
      exact readLinear_local c d h
    · simp only [hc, hd]
      exact .ok ⟨rfl, h'⟩
  · simp only [hc, hd]
    exact .ok ⟨rfl, h'⟩

theorem read_local : part.Local (read standard) := by
  intro c d h
  refine (h.expect _ (by decide) _).bind fun c d h => ?_
  refine (readBody_local _ _ h.skip_spaces).bind ?_
  rintro ⟨formula, c⟩ ⟨_, d⟩ ⟨rfl, h⟩
  refine (h.skip_spaces.expect _ (by decide) _).bind fun c d h => ?_
  exact .ok ⟨rfl, h⟩

end Formula

/-! ## Attribute tests -/

namespace AttributeTest

theorem readValue_local : part.Local (readValue standard) := by
  intro c d h
  unfold readValue
  obtain ⟨hc, hd⟩ | ⟨quoted, c', d', hc, hd, h'⟩ := h.token .attributeValue (by decide)
  · simp only [hc, hd]
    obtain ⟨hc, hd⟩ | ⟨name, c', d', hc, hd, h'⟩ := h.token .identifier (by decide)
    · simp only [hc, hd, h.offset]
      exact .error h.holds
    · simp only [hc, hd]
      exact .ok ⟨rfl, h'⟩
  · simp only [hc, hd]
    exact .ok ⟨rfl, h'⟩

theorem readComparison_local (name : String) : part.Local (readComparison standard name) := by
  intro c d h
  unfold readComparison
  obtain ⟨hc, hd⟩ | ⟨closing, c', d', hc, hd, h'⟩ := h.token .rightBracket (by decide)
  · simp only [hc, hd]
    obtain ⟨hc, hd⟩ | ⟨sign, c', d', hc, hd, h'⟩ :=
      h.token .attributeOperator (by decide)
    · simp only [hc, hd, h.offset]
      exact .error h.holds
    · simp only [hc, hd]
      cases AttributeOperator.ofText? sign with
      | none =>
        simp only [h.offset]
        exact .error h.holds
      | some operator =>
        refine (readValue_local _ _ h'.skip_spaces).bind ?_
        rintro ⟨value, c⟩ ⟨_, d⟩ ⟨rfl, h⟩
        refine (h.skip_spaces.expect _ (by decide) _).bind fun c d h => ?_
        exact .ok ⟨rfl, h⟩
  · simp only [hc, hd]
    exact .ok ⟨rfl, h'⟩

theorem read_local : part.Local (read standard) := by
  intro c d h
  refine (h.expect _ (by decide) _).bind fun c d h => ?_
  obtain ⟨hc, hd⟩ | ⟨name, c', d', hc, hd, h'⟩ :=
    h.skip_spaces.token .attributeName (by decide)
  · simp only [hc, hd, h.skip_spaces.offset]
    exact .error h.skip_spaces.holds
  · simp only [hc, hd]
    exact readComparison_local _ _ _ h'.skip_spaces

end AttributeTest

/-! ## Qualifiers -/

/-- An item that may be missing is read the same in a part alone and in the text. -/
def Part.LocalItem {α : Type} (part : Part)
    (item : Cursor → Except SelectorError (Option (α × Cursor))) : Prop :=
  ∀ c d, part.Same c d → part.Agrees (Option.Rel part.SamePair) (item c) (item d)

namespace Qualifier

theorem readNegation_local {argument : Reader Compound} (hargument : part.Local argument) :
    part.Local (readNegation standard argument) := by
  intro c d h
  refine (h.expect _ (by decide) _).bind fun c d h => ?_
  refine (hargument c d h).bind ?_
  rintro ⟨compound, c⟩ ⟨_, d⟩ ⟨rfl, h⟩
  refine (h.skip_spaces.expect _ (by decide) _).bind fun c d h => ?_
  exact .ok ⟨rfl, h⟩

theorem readPseudoClass_local {argument : Option (Reader Compound)}
    (hargument : ∀ reader ∈ argument, part.Local reader) :
    part.Local (readPseudoClass standard argument) := by
  intro c d h
  unfold readPseudoClass
  obtain ⟨hc, hd⟩ | ⟨text, c', d', hc, hd, h'⟩ := h.token .pseudoClass (by decide)
  · simp only [hc, hd, h.offset]
    exact .error h.holds
  simp only [hc, hd]
  cases PseudoClass.ofName? (String.ofList (text.tail.map Char.toLower)) with
  | none =>
    simp only [h.offset]
    exact .error h.holds
  | some pseudoClass =>
    cases pseudoClass with
    | place p among => exact .ok ⟨rfl, h'⟩
    | nth among =>
      refine (Formula.read_local _ _ h').bind ?_
      rintro ⟨formula, c⟩ ⟨_, d⟩ ⟨rfl, h⟩
      exact .ok ⟨rfl, h⟩
    | negation =>
      cases argument with
      | none =>
        simp only [h.offset]
        exact .error h.holds
      | some argument => exact readNegation_local (hargument argument rfl) _ _ h'

theorem read?_local {argument : Option (Reader Compound)}
    (hargument : ∀ reader ∈ argument, part.Local reader) :
    part.LocalItem (read? standard argument) := by
  intro c d h
  unfold read?
  obtain ⟨hc, hd⟩ | ⟨text, c', d', hc, hd, h'⟩ := h.token .className (by decide)
  · simp only [hc, hd]
    obtain ⟨hc, hd⟩ | ⟨text, c', d', hc, hd, h'⟩ := h.token .id (by decide)
    · simp only [hc, hd, h.peek_eq .pseudoClass (by decide),
        h.peek_eq .leftBracket (by decide)]
      split
      · exact (readPseudoClass_local hargument c d h).map fun _ _ => .some
      · split
        · refine (AttributeTest.read_local c d h).map ?_
          rintro ⟨test, c⟩ ⟨_, d⟩ ⟨rfl, h⟩
          exact .some ⟨rfl, h⟩
        · exact .ok .none
    · simp only [hc, hd]
      exact .ok (.some ⟨rfl, h'⟩)
  · simp only [hc, hd]
    exact .ok (.some ⟨rfl, h'⟩)

end Qualifier

/-! ## Loops -/

/-- The same item, and the offset in the text for the one in the part. -/
structure Part.SameItem {α : Type} (part : Part) (x y : Nat × α) : Prop where
  item : y.2 = x.2
  offset : y.1 = part.segment.start + x.1
  holds : part.segment.Holds (part.segment.start + x.1)

theorem Cursor.readWhile_local {α : Type}
    {item : Cursor → Except SelectorError (Option (α × Cursor))} (hitem : part.LocalItem item)
    {c d : Cursor} (h : part.Same c d) :
    part.Agrees (fun x y => List.Forall₂ part.SameItem x.1 y.1 ∧ part.Same x.2 y.2)
      (c.readWhile item) (d.readWhile item) := by
  induction hn : c.rest.length using Nat.strongRecOn generalizing c d with
  | ind n ih =>
  rw [readWhile, readWhile]
  obtain ⟨e, hc, hd, he⟩ | ⟨x, y, hc, hd, hrel⟩ := (hitem c d h).cases
  · simp only [hc, hd]
    exact .error he
  simp only [hc, hd]
  cases hrel with
  | none => exact .ok ⟨.nil, h⟩
  | @some x y hpair =>
    obtain ⟨a, c'⟩ := x
    obtain ⟨_, d'⟩ := y
    obtain ⟨rfl, h'⟩ := hpair
    -- An item takes the same off both texts, so that both loops go on or both stop.
    have hlt := h.length_lt_iff h'
    by_cases hshort : c'.rest.length < c.rest.length
    · simp only [if_pos hshort, if_pos (hlt.mpr hshort)]
      obtain ⟨e, hc', hd', he⟩ | ⟨x, y, hc', hd', hitems, hlast⟩ := (ih _ (hn ▸ hshort) h' rfl).cases
      · simp only [hc', hd']
        exact .error he
      · simp only [hc', hd']
        exact .ok ⟨.cons ⟨rfl, h.offset, h.holds⟩ hitems, hlast⟩
    · simp only [if_neg hshort, if_neg fun hd => hshort (hlt.mp hd)]
      exact .ok ⟨.nil, h⟩

namespace Part.SameItem

theorem map_eq {α : Type} {items items' : List (Nat × α)}
    (h : List.Forall₂ part.SameItem items items') : items'.map Prod.snd = items.map Prod.snd := by
  induction h with
  | nil => rfl
  | cons hitem _ ih => rw [List.map_cons, List.map_cons, hitem.item, ih]

/-- The first test of the position among siblings of the same name. -/
theorem sameType {items items' : List (Nat × Qualifier)}
    (h : List.Forall₂ part.SameItem items items') :
    Option.Rel part.SameItem (items.findSome? fun x => x.2.sameType?.map (x.1, ·))
      (items'.findSome? fun x => x.2.sameType?.map (x.1, ·)) := by
  induction h with
  | nil => exact .none
  | @cons x y _ _ hitem _ ih =>
    rw [List.findSome?_cons, List.findSome?_cons, hitem.item]
    cases x.2.sameType? with
    | none => exact ih
    | some pseudoClass => exact .some ⟨rfl, hitem.offset, hitem.holds⟩

end Part.SameItem

/-! ## Compounds -/

namespace Compound

theorem readElement_local {c d : Cursor} (h : part.Same c d) :
    ∃ element c' d', readElement standard c = (element, c') ∧
      readElement standard d = (element, d') ∧ part.Same c' d' := by
  unfold readElement
  obtain ⟨hc, hd⟩ | ⟨text, c', d', hc, hd, h'⟩ := h.token .universal (by decide)
  · obtain ⟨hc', hd'⟩ | ⟨name, c', d', hc', hd', h'⟩ := h.token .element (by decide)
    · exact ⟨none, c, d, by simp [hc, hc'], by simp [hd, hd'], h⟩
    · exact ⟨some (.named (String.ofList name)), c', d', by simp [hc, hc'], by simp [hd, hd'], h'⟩
  · exact ⟨some .universal, c', d', by simp [hc], by simp [hd], h'⟩

theorem check_local {c d : Cursor} (h : part.Same c d) (element : Option ElementTest)
    (name : Option String) {items items' : List (Nat × Qualifier)}
    (hitems : List.Forall₂ part.SameItem items items') :
    part.Agrees Eq (check c element name items) (check d element name items') := by
  have hempty : items'.isEmpty = items.isEmpty := by cases hitems <;> rfl
  have hfound := Part.SameItem.sameType hitems
  simp only [check, hempty, Part.SameItem.map_eq hitems]
  generalize (items.findSome? fun x => x.2.sameType?.map (x.1, ·)) = x at hfound ⊢
  generalize (items'.findSome? fun x => x.2.sameType?.map (x.1, ·)) = y at hfound ⊢
  split
  · rw [h.offset]
    exact .error h.holds
  · cases name with
    | some name => exact .ok rfl
    | none =>
      cases hfound with
      | none => exact .ok rfl
      | @some x y hitem =>
        obtain ⟨offset, pseudoClass⟩ := x
        obtain ⟨offset', pseudoClass'⟩ := y
        obtain rfl : pseudoClass' = pseudoClass := hitem.item
        obtain rfl : offset' = part.segment.start + offset := hitem.offset
        exact .error hitem.holds

theorem readWith_local {argument : Option String → Option (Reader Compound)}
    (hargument : ∀ name, ∀ reader ∈ argument name, part.Local reader) (enclosing : Option String) :
    part.Local (readWith standard argument enclosing) := by
  intro c d h
  obtain ⟨element, c1, d1, hc1, hd1, helement⟩ := readElement_local h.skip_spaces
  unfold readWith
  simp only [hc1, hd1]
  refine (Cursor.readWhile_local (Qualifier.read?_local (hargument _)) helement).bind ?_
  rintro ⟨items, c2⟩ ⟨items', d2⟩ ⟨hitems, h2⟩
  refine (check_local h.skip_spaces element _ hitems).bind ?_
  rintro compound _ rfl
  exact .ok ⟨rfl, h2⟩

theorem readNested_local (levels : Nat) (enclosing : Option String) :
    part.Local (readNested standard levels enclosing) := by
  induction levels generalizing enclosing with
  | zero => exact readWith_local (by simp) enclosing
  | succ levels ih =>
    refine readWith_local ?_ enclosing
    rintro name _ ⟨⟩
    exact ih name

end Compound

/-! ## Selectors -/

namespace Combinator

/-- After white space, the end of the part is what a comma is in the text. -/
theorem ends_local {c d c' d' : Cursor} {w : List Char} (hw : SpaceText w)
    (hc : c.Takes w c') (hd : d.Takes w d') (h' : part.Same c' d')
    (hspace : headIs isSpace c'.rest = false) :
    (c'.atEnd || standard.peek .comma c) = (d'.atEnd || standard.peek .comma d) := by
  have hspace' : headIs isSpace d'.rest = false := by rw [h'.headIs_eq rfl, hspace]
  rw [peek_comma hc.rest hw hspace, peek_comma hd.rest hw hspace', Cursor.atEnd, Cursor.atEnd,
    h'.rest]
  cases c'.rest with
  | nil => rcases part.ends with htail | ⟨t, htail⟩ <;> simp [htail]
  | cons x r => rfl

theorem read?_local {c d : Cursor} (h : part.Same c d) :
    Option.Rel part.SamePair (read? standard c) (read? standard d) := by
  unfold read?
  obtain ⟨hc1, hd1⟩ | ⟨text, c', d', hc, hd, h'⟩ := h.token .adjacentTo (by decide)
  swap
  · simp only [signs, List.findSome?_cons, hc, hd, Option.map_some]
    exact .some ⟨rfl, h'⟩
  obtain ⟨hc2, hd2⟩ | ⟨text, c', d', hc, hd, h'⟩ := h.token .precedes (by decide)
  swap
  · simp only [signs, List.findSome?_cons, hc1, hd1, hc, hd, Option.map_some, Option.map_none]
    exact .some ⟨rfl, h'⟩
  obtain ⟨hc3, hd3⟩ | ⟨text, c', d', hc, hd, h'⟩ := h.token .parentOf (by decide)
  swap
  · simp only [signs, List.findSome?_cons, hc1, hd1, hc2, hd2, hc, hd, Option.map_some,
      Option.map_none]
    exact .some ⟨rfl, h'⟩
  simp only [signs, List.findSome?_cons, hc1, hd1, hc2, hd2, hc3, hd3, Option.map_none,
    List.findSome?_nil]
  obtain ⟨hc, hd⟩ | ⟨w, c', d', hc, hd, h'⟩ := h.token .ancestorOf (by decide)
  · simp only [hc, hd]
    exact .none
  obtain ⟨hw, htc, hspace⟩ := token_iff.mp hc
  obtain ⟨-, htd, -⟩ := token_iff.mp hd
  have hends := ends_local (all_of_headed hw fun _ hx => hx) htc htd h' hspace
  simp only [hc, hd, ← hends, h'.peek_eq .rightParen (by decide)]
  split
  · exact .none
  · exact .some ⟨rfl, h'⟩

end Combinator

theorem Step.read?_local : part.LocalItem (Step.read? standard) := by
  intro c d h
  have hrel := Combinator.read?_local h
  unfold Step.read?
  generalize Combinator.read? standard c = x at hrel ⊢
  generalize Combinator.read? standard d = y at hrel ⊢
  cases hrel with
  | none => exact .ok .none
  | @some x y hpair =>
    obtain ⟨combinator, c'⟩ := x
    obtain ⟨_, d'⟩ := y
    obtain ⟨rfl, h'⟩ := hpair
    refine (Compound.readNested_local _ _ c' d' h').map ?_
    rintro ⟨compound, c⟩ ⟨_, d⟩ ⟨rfl, h⟩
    exact .some ⟨rfl, h⟩

theorem Selector.read_local : part.Local (Selector.read standard) := by
  intro c d h
  have hsteps : ∀ combinator c d, part.Same c d → part.Agrees part.SamePair
      (do
        let x ← Compound.read standard c
        let y ← x.2.readWhile (Step.read? standard)
        return ((⟨⟨combinator, x.1⟩ :: y.1.map Prod.snd⟩ : Selector), y.2))
      (do
        let x ← Compound.read standard d
        let y ← x.2.readWhile (Step.read? standard)
        return (⟨⟨combinator, x.1⟩ :: y.1.map Prod.snd⟩, y.2)) := by
    intro combinator c d h
    refine (Compound.readNested_local _ _ c d h).bind ?_
    rintro ⟨compound, c⟩ ⟨_, d⟩ ⟨rfl, h⟩
    refine (Cursor.readWhile_local Step.read?_local h).bind ?_
    rintro ⟨items, c⟩ ⟨items', d⟩ ⟨hitems, h⟩
    refine .ok ⟨?_, h⟩
    simp [Part.SameItem.map_eq hitems]
  unfold Selector.read
  obtain ⟨hc, hd⟩ | ⟨text, c', d', hc, hd, h'⟩ := h.token .parentOf (by decide)
  · simp only [hc, hd]
    exact hsteps .descendant c d h
  · simp only [hc, hd]
    exact hsteps .child c' d' h'

end SelectorPath
