import SelectorPath.Proofs.Pattern.Run
import SelectorPath.Proofs.Text.Classes
import SelectorPath.Token.Kind

/-!
The tokens of the standard lexicon, by what their texts are and not by how they are matched.
`TokenKind.IsText` says which texts a kind has, `TokenKind.goesOn` with which characters a token
would be longer, and `TokenKind.take?_iff` that the pattern of a kind takes the text of the
kind after which the text does not go on in this way.
-/

namespace SelectorPath

open Text

/-! ## The sets of the patterns -/

namespace CharClass

@[simp] theorem contains_single (c d : Char) : (single d).contains c = (c == d) := by
  rw [Bool.eq_iff_iff]
  simp only [single, contains, Bool.and_eq_true, decide_eq_true_eq, beq_iff_eq]
  constructor
  · rintro ⟨h1, h2⟩
    exact Char.le_antisymm h2 h1
  · rintro rfl
    exact ⟨Char.le_refl _, Char.le_refl _⟩

@[simp] theorem contains_range (c lo hi : Char) :
    (range lo hi).contains c = (lo ≤ c && c ≤ hi) := rfl

@[simp] theorem contains_space (c : Char) : space.contains c = isSpace c := rfl

@[simp] theorem contains_digit (c : Char) : digit.contains c = isDigit c := rfl

@[simp] theorem contains_word (c : Char) : word.contains c = isWord c := rfl

end CharClass

namespace CharSet

@[simp] theorem contains_of (classes : List CharClass) (c : Char) :
    (of classes).contains c = classes.any (CharClass.contains c) := by
  simp [contains, of]

@[simp] theorem contains_single (c d : Char) : (single d).contains c = (c == d) := by
  simp [single]

@[simp] theorem contains_negated (classes : List CharClass) (c : Char) :
    (⟨classes, true⟩ : CharSet).contains c = !classes.any (CharClass.contains c) := by
  simp [contains]

theorem contains_spaces : (of [.space]).contains = isSpace := by
  funext c
  simp

theorem contains_digits : (of [.digit]).contains = isDigit := by
  funext c
  simp

theorem contains_nameStart : (of (.single '_' :: TokenKind.letters)).contains = isNameStart := by
  funext c
  simp [TokenKind.letters, isNameStart, isLetter]

theorem contains_namePart : (of [.single '-', .word]).contains = isNamePart := by
  funext c
  simp [isNamePart]

/-- The underscore is a word character, so that it adds nothing. -/
theorem contains_classPart : (of [.single '-', .single '_', .word]).contains = isNamePart := by
  have hw : isWord '_' := by decide +kernel
  funext c
  by_cases h : c = '_'
  · simp [isNamePart, h, hw]
  · simp [isNamePart, beq_eq_false_iff_ne.mpr h]

theorem contains_attributePart :
    (of [.single '-', .word, .single '.']).contains = isAttributePart := by
  funext c
  simp [isNamePart, isAttributePart, Bool.or_assoc]

theorem contains_pseudoPart :
    (of (.single '-' :: .single '_' :: TokenKind.letters)).contains = isPseudoPart := by
  funext c
  simp [TokenKind.letters, isNameStart, isLetter, isPseudoPart]

end CharSet

/-! ## The texts of the kinds -/

/-- A character of one class and any number of characters of another. -/
def Headed (first rest : Char → Bool) (s : List Char) : Prop :=
  ∃ c t, s = c :: t ∧ first c ∧ ∀ d ∈ t, rest d

/-- White space and a sign. -/
def Spaced (sign : Char) (s : List Char) : Prop :=
  ∃ w, s = w ++ [sign] ∧ ∀ c ∈ w, isSpace c

/-- What stands in quotes: escaped characters other than the line feed, and characters other
than the quote and the backslash. -/
inductive QuotedBody (quote : Char) : List Char → Prop
  | nil : QuotedBody quote []
  | escaped {c : Char} {s : List Char} :
      c ≠ '\n' → QuotedBody quote s → QuotedBody quote ('\\' :: c :: s)
  | plain {c : Char} {s : List Char} :
      c ≠ quote → c ≠ '\\' → QuotedBody quote s → QuotedBody quote (c :: s)

/-- A text in quotes. -/
def QuotedText (quote : Char) (s : List Char) : Prop :=
  ∃ body, s = quote :: (body ++ [quote]) ∧ QuotedBody quote body

namespace TokenKind

/-- The texts of a kind. -/
def IsText : TokenKind → List Char → Prop
  | .spaces | .ancestorOf => Headed isSpace isSpace
  | .comma => Spaced ','
  | .universal => (· = ['*'])
  | .element => Headed isNameStart isNamePart
  | .className => fun s => ∃ t, s = '.' :: t ∧ Headed isNamePart isNamePart t
  | .id => fun s => ∃ t, s = '#' :: t ∧ Headed isNamePart isNamePart t
  | .leftBracket => (· = ['['])
  | .rightBracket => (· = [']'])
  | .attributeName => Headed isNameStart isAttributePart
  | .attributeValue => fun s => QuotedText '"' s ∨ QuotedText '\'' s
  | .identifier => Headed isPseudoPart isNamePart
  | .attributeOperator => fun s => s = ['='] ∨ ∃ c ∈ "~|^$*!".toList, s = [c, '=']
  | .pseudoClass => fun s => ∃ t, s = ':' :: t ∧ Headed isPseudoPart isPseudoPart t
  | .leftParen => (· = ['('])
  | .rightParen => (· = [')'])
  | .number => Headed isDigit isDigit
  | .odd => fun s => s.map Char.toLower = "odd".toList
  | .even => fun s => s.map Char.toLower = "even".toList
  | .n => fun s => s = ['n'] ∨ s = ['N']
  | .sign => fun s => s = ['-'] ∨ s = ['+']
  | .adjacentTo => Spaced '+'
  | .precedes => Spaced '~'
  | .parentOf => Spaced '>'

/-- The characters that make a token of a kind longer. -/
def goesOn : TokenKind → Char → Bool
  | .spaces | .ancestorOf => isSpace
  | .element | .className | .id | .identifier => isNamePart
  | .attributeName => isAttributePart
  | .pseudoClass => isPseudoPart
  | .number => isDigit
  | _ => fun _ => false

end TokenKind

/-! ## Matching -/

namespace Pattern

theorem take?_iff {p : Pattern} {s token rest : List Char} :
    p.take? s = some (token, rest) ↔ run [[p]] s = some (token, rest) ∧ token ≠ [] := by
  simp [take?, Option.filter_eq_some_iff]

theorem run_one_iff {set : CharSet} {s token rest : List Char} :
    run [[.one set]] s = some (token, rest) ↔
      ∃ c, set.contains c ∧ token = [c] ∧ s = token ++ rest := by
  cases s with
  | nil =>
    rw [run_one_nil]
    constructor
    · intro h
      simp at h
    · rintro ⟨c, -, rfl, h⟩
      simp at h
  | cons c s =>
    rw [run_one_cons]
    constructor
    · intro h
      split at h
      · next hc =>
        simp only [run_done, Option.map_some, Option.some.injEq, Prod.mk.injEq] at h
        obtain ⟨rfl, rfl⟩ := h
        exact ⟨c, hc, rfl, rfl⟩
      · simp at h
    · rintro ⟨d, hd, rfl, h⟩
      simp only [List.cons_append, List.nil_append, List.cons.injEq] at h
      obtain ⟨rfl, rfl⟩ := h
      simp [hd]

/-- One character more in front of a pattern. -/
theorem run_one_then_iff {set : CharSet} {later : Task} {s token rest : List Char} :
    run [.one set :: later] s = some (token, rest) ↔
      ∃ c s' t, set.contains c ∧ s = c :: s' ∧ token = c :: t ∧
        run [later] s' = some (t, rest) := by
  cases s with
  | nil => simp [run_one_nil]
  | cons c s =>
    rw [run_one_cons]
    by_cases hc : set.contains c
    · simp only [hc, ↓reduceIte, Option.map_eq_some_iff, Prod.exists, Prod.mk.injEq]
      constructor
      · rintro ⟨t, r, h, rfl, rfl⟩
        exact ⟨c, s, t, hc, rfl, rfl, h⟩
      · rintro ⟨d, s', t, -, h, rfl, hr⟩
        obtain ⟨rfl, rfl⟩ := List.cons.inj h
        exact ⟨t, rest, hr, rfl, rfl⟩
    · simp only [hc, Bool.false_eq_true, ↓reduceIte, reduceCtorEq, false_iff]
      rintro ⟨d, s', t, hd, h, -⟩
      exact hc ((List.cons.inj h).1 ▸ hd)

theorem run_headed_iff {first rest : CharSet} {s token after : List Char} :
    run [[.seq (.one first) (.loop true (.one rest))]] s = some (token, after) ↔
      Headed first.contains rest.contains token ∧ s = token ++ after ∧
        headIs rest.contains after = false := by
  rw [run_seq, run_one_then_iff]
  constructor
  · rintro ⟨c, s', t, hc, rfl, rfl, h⟩
    simp only [run_loop_one, Option.some.injEq, Prod.mk.injEq] at h
    obtain ⟨rfl, ht, hs⟩ := span_iff.mp h
    exact ⟨⟨c, t, rfl, hc, ht⟩, rfl, hs⟩
  · rintro ⟨⟨c, t, rfl, hc, ht⟩, rfl, hs⟩
    refine ⟨c, t ++ after, t, hc, rfl, rfl, ?_⟩
    rw [run_loop_one, (span_iff.mpr ⟨rfl, ht, hs⟩).1, (span_iff.mpr ⟨rfl, ht, hs⟩).2]

theorem run_char_headed_iff {sign : Char} {set : CharSet} {s token after : List Char} :
    run [[.seq (.char sign) (oneOrMore true (.one set))]] s = some (token, after) ↔
      (∃ t, token = sign :: t ∧ Headed set.contains set.contains t) ∧ s = token ++ after ∧
        headIs set.contains after = false := by
  rw [run_seq, char, run_one_then_iff]
  simp only [oneOrMore, run_headed_iff, CharSet.contains_single, beq_iff_eq]
  constructor
  · rintro ⟨c, s', t, rfl, rfl, rfl, ht, rfl, hs⟩
    exact ⟨⟨t, rfl, ht⟩, rfl, hs⟩
  · rintro ⟨⟨t, rfl, ht⟩, rfl, hs⟩
    exact ⟨sign, t ++ after, t, rfl, rfl, rfl, ht, rfl, hs⟩

theorem run_spaced_iff {sign : Char} (hsign : isSpace sign = false) {s token after : List Char} :
    run [[TokenKind.spacedPattern sign]] s = some (token, after) ↔
      Spaced sign token ∧ s = token ++ after := by
  have hd : ∀ c, (CharSet.of [.space]).contains c → (CharSet.single sign).contains c = false := by
    intro c hc
    rw [CharSet.contains_spaces] at hc
    rw [CharSet.contains_single, beq_eq_false_iff_ne]
    rintro rfl
    exact absurd hc (by simp [hsign])
  rw [TokenKind.spacedPattern, run_seq]
  change run [[.loop true (.one (.of [.space])), .one (.single sign)]] s = _ ↔ _
  rw [run_loop_before _ _ hd, CharSet.contains_spaces]
  constructor
  · intro h
    obtain ⟨hs, hw, -⟩ := (span_iff (p := isSpace) (s := s)).mp ⟨rfl, rfl⟩
    split at h
    · simp at h
    · next c rest hrest =>
      split at h
      · next hc =>
        simp only [Option.some.injEq, Prod.mk.injEq] at h
        obtain ⟨rfl, rfl⟩ := h
        simp only [CharSet.contains_single, beq_iff_eq] at hc
        refine ⟨⟨_, by rw [hc], hw⟩, ?_⟩
        rw [List.append_assoc, List.singleton_append, ← hrest]
        exact hs
      · simp at h
  · rintro ⟨⟨w, rfl, hw⟩, rfl⟩
    obtain ⟨ht, hr⟩ := span_iff.mpr
      (show w ++ [sign] ++ after = w ++ sign :: after ∧ _ ∧ _ from
        ⟨by simp, hw, by simpa using hsign⟩)
    simp only [ht, hr, CharSet.contains_single, beq_self_eq_true, ↓reduceIte]

theorem run_operator_iff {s token after : List Char} :
    run [[TokenKind.attributeOperator.pattern]] s = some (token, after) ↔
      TokenKind.attributeOperator.IsText token ∧ s = token ++ after := by
  let marks : CharSet := .of ("~|^$*!".toList.map .single)
  have hm : ∀ c, marks.contains c ↔ c ∈ "~|^$*!".toList := by
    intro c
    simp [marks]
  have hd : ∀ c, marks.contains c → (CharSet.single '=').contains c = false := by
    intro c hc
    rw [CharSet.contains_single, beq_eq_false_iff_ne]
    rintro rfl
    exact absurd ((hm '=').mp hc) (by decide)
  rw [TokenKind.pattern, run_seq]
  change run [[.alt (.one marks) .empty, .one (.single '=')]] s = _ ↔ _
  cases s with
  | nil =>
    constructor
    · intro h
      simp [run, frontier, exploreTask, explore, Frontier.enter, Frontier.start, Task.size,
        size] at h
    · rintro ⟨rfl | ⟨c, -, rfl⟩, h⟩ <;> simp at h
  | cons c s =>
    rw [run_optional_before marks _ hd]
    by_cases hc : marks.contains c
    · have hne : c ≠ '=' := by
        rintro rfl
        exact absurd ((hm '=').mp hc) (by decide)
      simp only [hc, ↓reduceIte, Option.map_eq_some_iff, Prod.exists, run_one_iff,
        CharSet.contains_single, beq_iff_eq, Prod.mk.injEq]
      constructor
      · rintro ⟨t, r, ⟨d, rfl, rfl, rfl⟩, rfl, rfl⟩
        exact ⟨.inr ⟨c, (hm c).mp hc, rfl⟩, rfl⟩
      · rintro ⟨rfl | ⟨d, -, rfl⟩, h⟩
        · exact absurd (List.cons.inj h).1 hne
        · obtain ⟨rfl, rfl⟩ := List.cons.inj h
          exact ⟨['='], after, ⟨'=', rfl, rfl, rfl⟩, rfl, rfl⟩
    · simp only [hc, Bool.false_eq_true, ↓reduceIte, CharSet.contains_single, beq_iff_eq]
      constructor
      · intro h
        split at h
        · next he =>
          simp only [Option.some.injEq, Prod.mk.injEq] at h
          obtain ⟨rfl, rfl⟩ := h
          exact ⟨.inl (by rw [he]), rfl⟩
        · simp at h
      · rintro ⟨rfl | ⟨d, hd, rfl⟩, h⟩
        · obtain ⟨rfl, rfl⟩ := List.cons.inj h
          simp
        · exact absurd ((hm c).mpr ((List.cons.inj h).1 ▸ hd)) hc

/-! ## Keywords -/

theorem contains_letter {c small capital : Char} (h : CharSet.foldCase (.single small) =
    .of [.single small, .single small, .single capital]) :
    (CharSet.single small).foldCase.contains c ↔ c = small ∨ c = capital := by
  rw [h]
  simp

theorem run_letters_iff (first : Char) (word s token after : List Char)
    (hfold : ∀ c ∈ first :: word, ∀ d, (CharSet.single c).foldCase.contains d ↔ d.toLower = c) :
    run [[all ((first :: word).map TokenKind.letterPattern)]] s = some (token, after) ↔
      token.map Char.toLower = first :: word ∧ s = token ++ after := by
  induction word generalizing first s token with
  | nil =>
    change run [[.one _]] s = _ ↔ _
    rw [run_one_iff]
    simp only [hfold first (by simp)]
    constructor
    · rintro ⟨c, hc, rfl, rfl⟩
      exact ⟨by simp [hc], rfl⟩
    · rintro ⟨ht, rfl⟩
      obtain ⟨c, rfl⟩ := List.length_eq_one_iff.mp (by simpa using congrArg List.length ht)
      exact ⟨c, by simpa using ht, rfl, rfl⟩
  | cons next word ih =>
    change run [[.seq (.one _) (all ((next :: word).map TokenKind.letterPattern))]] s = _ ↔ _
    rw [run_seq, run_one_then_iff]
    simp only [hfold first (by simp), ih next _ _ fun c hc => hfold c (List.mem_cons_of_mem _ hc)]
    constructor
    · rintro ⟨c, s', t, hc, rfl, rfl, ht, rfl⟩
      exact ⟨by simp [hc, ht], rfl⟩
    · rintro ⟨ht, rfl⟩
      cases token with
      | nil => simp at ht
      | cons c token =>
        simp only [List.map_cons, List.cons.injEq] at ht
        exact ⟨c, token ++ after, token, ht.1, rfl, rfl, by simpa using ht.2, rfl⟩

/-! ## Quoted texts -/

theorem quotedPattern_eq (quote : Char) :
    TokenKind.quotedPattern quote =
      .seq (.char quote)
        (.seq (.loop true (.alt (.seq (.char '\\') (.one .anyButLineFeed))
            (.one ⟨[.single quote, .single '\\'], true⟩)))
          (.char quote)) := rfl

/-- One character inside quotes. -/
private theorem run_inside_cons {quote : Char} (hq : quote ≠ '\\') (c : Char) (s : List Char) :
    let inside : Task := [.loop true (.alt (.seq (.char '\\') (.one .anyButLineFeed))
      (.one ⟨[.single quote, .single '\\'], true⟩)), .char quote]
    run [inside] (c :: s) =
      (run [if c = '\\' then .one .anyButLineFeed :: inside else if c = quote then [] else inside]
        s).map fun (token, rest) => (c :: token, rest) := by
  intro inside
  have hn : (frontier [inside]).complete = false := by
    simp [inside, frontier, exploreTask, explore, char, Frontier.enter, Frontier.start, Task.size,
      size]
  have hf : (frontier [inside]).after c =
      [if c = '\\' then .one .anyButLineFeed :: inside
        else if c = quote then [] else inside] := by
    by_cases h1 : c = '\\'
    · subst h1
      simp [inside, frontier, exploreTask, explore, char, Frontier.enter, Frontier.start,
        Frontier.after, Task.size, size, hq.symm]
    · by_cases h2 : c = quote
      · subst h2
        simp [inside, frontier, exploreTask, explore, char, Frontier.enter, Frontier.start,
          Frontier.after, Task.size, size, h1]
      · simp [inside, frontier, exploreTask, explore, char, Frontier.enter, Frontier.start,
          Frontier.after, Task.size, size, h1, h2]
  rw [run_cons, hf, hn]
  cases run _ s <;> rfl

/-- Inside quotes a run goes to the first quote that is not escaped. -/
theorem run_inside_iff {quote : Char} (hq : quote ≠ '\\') {s token after : List Char} :
    run [[.loop true (.alt (.seq (.char '\\') (.one .anyButLineFeed))
        (.one ⟨[.single quote, .single '\\'], true⟩)), .char quote]] s = some (token, after) ↔
      (∃ body, token = body ++ [quote] ∧ QuotedBody quote body) ∧ s = token ++ after := by
  -- the run takes one or two characters at a time, hence the induction on the length
  induction hn : s.length using Nat.strongRecOn generalizing s token with
  | ind n ih =>
  cases s with
  | nil =>
    constructor
    · intro h
      simp [run, frontier, exploreTask, explore, char, Frontier.enter, Frontier.start, Task.size,
        size] at h
    · rintro ⟨⟨body, rfl, -⟩, h⟩
      simp at h
  | cons c s =>
    subst hn
    rw [run_inside_cons hq, Option.map_eq_some_iff]
    simp only [Prod.exists, Prod.mk.injEq]
    by_cases h1 : c = '\\'
    · subst h1
      simp only [↓reduceIte]
      constructor
      · rintro ⟨t, r, h, rfl, rfl⟩
        obtain ⟨d, s', t', hd, rfl, rfl, hrun⟩ := run_one_then_iff.mp h
        obtain ⟨⟨body, rfl, hb⟩, rfl⟩ := (ih s'.length (by simp only [List.length_cons]; omega) rfl).mp hrun
        have hd : d ≠ '\n' := by simpa [CharSet.anyButLineFeed] using hd
        exact ⟨⟨'\\' :: d :: body, rfl, .escaped hd hb⟩, rfl⟩
      · rintro ⟨⟨body, rfl, hb⟩, h⟩
        cases hb with
        | nil => exact absurd (List.cons.inj h).1.symm hq
        | @escaped d body hd hb =>
          obtain rfl := (List.cons.inj h).2
          refine ⟨d :: (body ++ [quote]), after, run_one_then_iff.mpr ?_, rfl, rfl⟩
          refine ⟨d, body ++ [quote] ++ after, body ++ [quote], ?_, rfl, rfl, ?_⟩
          · simpa [CharSet.anyButLineFeed] using hd
          · exact (ih (body ++ [quote] ++ after).length
              (by simp only [List.append_eq, List.cons_append, List.length_cons]; omega) rfl).mpr
              ⟨⟨body, rfl, hb⟩, rfl⟩
        | plain _ h2 _ => exact absurd (List.cons.inj h).1.symm h2
    · by_cases h2 : c = quote
      · subst h2
        simp only [h1, ↓reduceIte, run_done, Option.some.injEq, Prod.mk.injEq]
        constructor
        · rintro ⟨t, r, ⟨rfl, rfl⟩, rfl, rfl⟩
          exact ⟨⟨[], rfl, .nil⟩, rfl⟩
        · rintro ⟨⟨body, rfl, hb⟩, h⟩
          cases hb with
          | nil =>
            obtain rfl := (List.cons.inj h).2
            exact ⟨[], s, ⟨rfl, rfl⟩, rfl, rfl⟩
          | escaped _ _ => exact absurd (List.cons.inj h).1 h1
          | plain h2 _ _ => exact absurd (List.cons.inj h).1.symm h2
      · simp only [h1, h2, ↓reduceIte]
        constructor
        · rintro ⟨t, r, h, rfl, rfl⟩
          obtain ⟨⟨body, rfl, hb⟩, rfl⟩ := (ih s.length (by simp) rfl).mp h
          exact ⟨⟨c :: body, rfl, .plain h2 h1 hb⟩, rfl⟩
        · rintro ⟨⟨body, rfl, hb⟩, h⟩
          cases hb with
          | nil => exact absurd (List.cons.inj h).1 h2
          | escaped _ _ => exact absurd (List.cons.inj h).1 h1
          | @plain d body _ _ hb =>
            obtain ⟨rfl, rfl⟩ := List.cons.inj h
            exact ⟨body ++ [quote], after,
              (ih _ (by simp) rfl).mpr ⟨⟨body, rfl, hb⟩, rfl⟩, rfl, rfl⟩

/-- The two kinds of quotes do not get in each other's way. -/
private theorem run_attributeValue_cons (c : Char) (s : List Char) :
    run [[TokenKind.attributeValue.pattern]] (c :: s) =
      if c = '"' ∨ c = '\'' then run [[TokenKind.quotedPattern c]] (c :: s) else none := by
  have hn : (frontier [[TokenKind.attributeValue.pattern]]).complete = false := by decide
  have hf : ∀ quote, (frontier [[TokenKind.quotedPattern quote]]).complete = false := by
    intro quote
    simp [quotedPattern_eq, frontier, exploreTask, explore, char, Frontier.enter, Frontier.start]
  by_cases h1 : c = '"'
  · subst h1
    have ha : (frontier [[TokenKind.attributeValue.pattern]]).after '"' =
        (frontier [[TokenKind.quotedPattern '"']]).after '"' := by decide
    simp [run_cons, ha, hn, hf]
  · by_cases h2 : c = '\''
    · subst h2
      have ha : (frontier [[TokenKind.attributeValue.pattern]]).after '\'' =
          (frontier [[TokenKind.quotedPattern '\'']]).after '\'' := by decide
      simp [run_cons, ha, hn, hf]
    · have hm : ∀ move ∈ (frontier [[TokenKind.attributeValue.pattern]]).moves,
          move.1 = .single '"' ∨ move.1 = .single '\'' := by decide
      have ha : (frontier [[TokenKind.attributeValue.pattern]]).after c = [] := by
        rw [Frontier.after, List.filterMap_eq_nil_iff]
        rintro ⟨set, task⟩ hmove
        rcases hm _ hmove with rfl | rfl <;> simp [h1, h2]
      simp [run_cons, ha, hn, h1, h2]

theorem run_quoted_iff {quote : Char} (hq : quote ≠ '\\') {s token after : List Char} :
    run [[TokenKind.quotedPattern quote]] s = some (token, after) ↔
      QuotedText quote token ∧ s = token ++ after := by
  rw [quotedPattern_eq, run_seq]
  refine run_one_then_iff.trans ?_
  simp only [run_seq, run_inside_iff hq, CharSet.contains_single, beq_iff_eq]
  constructor
  · rintro ⟨c, s', t, rfl, rfl, rfl, ⟨body, rfl, hb⟩, rfl⟩
    exact ⟨⟨body, rfl, hb⟩, rfl⟩
  · rintro ⟨⟨body, rfl, hb⟩, rfl⟩
    exact ⟨quote, body ++ [quote] ++ after, body ++ [quote], rfl, rfl, rfl, ⟨body, rfl, hb⟩, rfl⟩

theorem run_attributeValue_iff {s token after : List Char} :
    run [[TokenKind.attributeValue.pattern]] s = some (token, after) ↔
      TokenKind.attributeValue.IsText token ∧ s = token ++ after := by
  cases s with
  | nil =>
    constructor
    · intro h
      exact absurd h (by simp [show run [[TokenKind.attributeValue.pattern]] [] = none by decide])
    · rintro ⟨⟨body, rfl, -⟩ | ⟨body, rfl, -⟩, h⟩ <;> simp at h
  | cons c s =>
    rw [run_attributeValue_cons]
    by_cases hc : c = '"' ∨ c = '\''
    · have hq : c ≠ '\\' := by rcases hc with rfl | rfl <;> decide
      rw [if_pos hc, run_quoted_iff hq]
      constructor
      · rintro ⟨h, hs⟩
        rcases hc with rfl | rfl
        · exact ⟨.inl h, hs⟩
        · exact ⟨.inr h, hs⟩
      · rintro ⟨⟨body, rfl, hb⟩ | ⟨body, rfl, hb⟩, hs⟩ <;>
          exact ⟨⟨body, by rw [(List.cons.inj hs).1], (List.cons.inj hs).1 ▸ hb⟩, hs⟩
    · simp only [if_neg hc, reduceCtorEq, false_iff]
      rintro ⟨⟨body, rfl, -⟩ | ⟨body, rfl, -⟩, h⟩
      · exact hc (.inl (List.cons.inj h).1)
      · exact hc (.inr (List.cons.inj h).1)

end Pattern

/-! ## All kinds -/

/-- A letter of the keywords stands for itself in either case. -/
private theorem foldCase_keyword : ∀ c ∈ "oddeven".toList, ∀ d,
    (CharSet.single c).foldCase.contains d ↔ d.toLower = c := by
  have hletter : ∀ small capital : Char, (97 ≤ small.toNat ∧ small.toNat ≤ 122) →
      small.toNat = capital.toNat + 32 → CharSet.foldCase (.single small) =
        .of [.single small, .single small, .single capital] →
      ∀ d, (CharSet.single small).foldCase.contains d ↔ d.toLower = small := by
    intro small capital hs hc hf d
    rw [Pattern.contains_letter hf, toLower_eq_iff small capital hs hc]
  have hmem : ∀ c ∈ "oddeven".toList, c = 'o' ∨ c = 'd' ∨ c = 'e' ∨ c = 'v' ∨ c = 'n' :=
    forall_mem_of_all rfl
  intro c hc
  rcases hmem c hc with rfl | rfl | rfl | rfl | rfl
  · exact hletter 'o' 'O' (by decide) (by decide) (by decide)
  · exact hletter 'd' 'D' (by decide) (by decide) (by decide)
  · exact hletter 'e' 'E' (by decide) (by decide) (by decide)
  · exact hletter 'v' 'V' (by decide) (by decide) (by decide)
  · exact hletter 'n' 'N' (by decide) (by decide) (by decide)

namespace TokenKind

open Pattern

/-- A kind whose only text is one character. -/
private theorem run_char_iff {sign : Char} {s token rest : List Char} :
    run [[.char sign]] s = some (token, rest) ↔ token = [sign] ∧ s = token ++ rest := by
  rw [Pattern.char, run_one_iff]
  simp

/-- The greedy match of a kind: a text of the kind after which the text does not go on. -/
theorem run_iff (kind : TokenKind) {s token rest : List Char} :
    run [[kind.pattern]] s = some (token, rest) ↔
      kind.IsText token ∧ s = token ++ rest ∧ headIs kind.goesOn rest = false := by
  have hno : headIs (fun _ => false) rest = false := by cases rest <;> rfl
  have hspaces : run [[TokenKind.spaces.pattern]] s = some (token, rest) ↔
      Headed isSpace isSpace token ∧ s = token ++ rest ∧ headIs isSpace rest = false := by
    rw [← CharSet.contains_spaces]
    exact run_headed_iff
  have hspaced : ∀ sign, isSpace sign = false →
      (run [[spacedPattern sign]] s = some (token, rest) ↔
        Spaced sign token ∧ s = token ++ rest ∧ headIs (fun _ => false) rest = false) := by
    intro sign hsign
    simp [run_spaced_iff hsign, hno]
  have hchar : ∀ sign, run [[.char sign]] s = some (token, rest) ↔
      token = [sign] ∧ s = token ++ rest ∧ headIs (fun _ => false) rest = false := by
    intro sign
    simp [run_char_iff, hno]
  cases kind with
  | spaces => exact hspaces
  | ancestorOf => exact hspaces
  | comma => exact hspaced ',' (by decide)
  | adjacentTo => exact hspaced '+' (by decide)
  | precedes => exact hspaced '~' (by decide)
  | parentOf => exact hspaced '>' (by decide)
  | universal => exact hchar '*'
  | leftBracket => exact hchar '['
  | rightBracket => exact hchar ']'
  | leftParen => exact hchar '('
  | rightParen => exact hchar ')'
  | element =>
    simp only [IsText, goesOn, ← CharSet.contains_nameStart, ← CharSet.contains_namePart]
    exact run_headed_iff
  | className =>
    simp only [IsText, goesOn, ← CharSet.contains_classPart]
    exact run_char_headed_iff
  | id =>
    simp only [IsText, goesOn, ← CharSet.contains_classPart]
    exact run_char_headed_iff
  | attributeName =>
    simp only [IsText, goesOn, ← CharSet.contains_nameStart, ← CharSet.contains_attributePart]
    exact run_headed_iff
  | identifier =>
    simp only [IsText, goesOn, ← CharSet.contains_pseudoPart, ← CharSet.contains_namePart]
    exact run_headed_iff
  | pseudoClass =>
    simp only [IsText, goesOn, ← CharSet.contains_pseudoPart]
    exact run_char_headed_iff
  | number =>
    simp only [IsText, goesOn, ← CharSet.contains_digits]
    exact run_headed_iff
  | attributeValue => simp only [goesOn, hno, and_true, run_attributeValue_iff]
  | attributeOperator => simp only [goesOn, hno, and_true, run_operator_iff]
  | odd =>
    simp only [goesOn, hno, and_true]
    exact run_letters_iff 'o' ['d', 'd'] _ _ _
      fun c hc => foldCase_keyword c (List.mem_append_left _ hc)
  | even =>
    simp only [goesOn, hno, and_true]
    exact run_letters_iff 'e' ['v', 'e', 'n'] _ _ _
      fun c hc => foldCase_keyword c (List.mem_append_right ['o', 'd', 'd'] hc)
  | n =>
    simp only [goesOn, hno, and_true, IsText, pattern, run_one_iff]
    simp [or_and_right, exists_or]
  | sign =>
    simp only [goesOn, hno, and_true, IsText, pattern, run_one_iff]
    simp [or_and_right, exists_or]

/-- No token is empty. -/
theorem IsText.ne_nil {kind : TokenKind} {s : List Char} (h : kind.IsText s) : s ≠ [] := by
  rintro rfl
  cases kind <;> simp [IsText, Headed, Spaced, QuotedText] at h

theorem take?_iff (kind : TokenKind) {s token rest : List Char} :
    kind.pattern.take? s = some (token, rest) ↔
      kind.IsText token ∧ s = token ++ rest ∧ headIs kind.goesOn rest = false := by
  rw [Pattern.take?_iff, run_iff]
  exact ⟨And.left, fun h => ⟨h, h.1.ne_nil⟩⟩

end TokenKind

end SelectorPath
