import SelectorPath.Proofs.XPath.Lexing

/-!
The trees of the tokens of expressions. `Reads` says that tokens are read as a tree at a level
of the operators, whatever follows that does not go on at a higher level; it is carried from
operands to operators, and from high levels to low ones. The main statement is
`ofText?_renderUnion`: the text of a union of well-formed paths has the tree of the union.
-/

namespace SelectorPath.XPath

open Text Syntax

/-! ## Levels -/

/-- Whether a token goes on with an expression of a level. -/
def goesOn (level : Nat) : Token → Bool
  | .operator op => level ≤ op.level
  | .slash | .slashes | .openBracket => true
  | _ => false

/-- An expression of a level ends before these tokens. -/
def EndsTree (level : Nat) (rest : List Token) : Prop := ∀ t ∈ rest.head?, goesOn level t = false

theorem EndsTree.mono {l m : Nat} {rest : List Token} (h : EndsTree l rest) (hl : l ≤ m) :
    EndsTree m rest := by
  intro t ht
  have hno := h t ht
  cases t with
  | operator op =>
    simp only [goesOn, decide_eq_false_iff_not] at *
    omega
  | _ => exact hno

theorem EndsTree.nil (l : Nat) : EndsTree l [] := by
  simp [EndsTree]

theorem EndsTree.cons {l : Nat} {t : Token} (h : goesOn l t = false) (rest : List Token) :
    EndsTree l (t :: rest) := by
  intro u hu
  simp only [List.head?_cons, Option.mem_def, Option.some.injEq] at hu
  exact hu ▸ h

theorem EndsTree.operator {op : Op} {l : Nat} (h : op.level < l) (rest : List Token) :
    EndsTree l (.operator op :: rest) :=
  .cons (by simpa [goesOn] using h) rest

theorem readOperands_of_ends {l : Nat} {t : Tree} {rest : List Token} (h : EndsTree l rest) :
    readOperands l t rest = some (t, rest) := by
  rw [readOperands.eq_def]
  split
  · next op rest =>
    have hop := h (.operator op) (by simp)
    simp only [goesOn, decide_eq_false_iff_not] at hop
    rw [if_neg (by omega)]
  · rfl

theorem Syntax.Op.level_ne_signLevel (op : Op) :
    op.level ≠ signLevel := by
  cases op <;> decide

/-- At a level of no operator there is nothing to go on with. -/
theorem readOperands_of_levels {l : Nat} {t : Tree} {rest : List Token}
    (h : ∀ op : Op, op.level ≠ l) : readOperands l t rest = some (t, rest) := by
  rw [readOperands.eq_def]
  split
  · next op rest => rw [if_neg (h op)]
  · rfl

theorem length_lt_append {ts : List Token} (h : ts ≠ []) (rest : List Token) :
    rest.length < (ts ++ rest).length := by
  have hpos := List.length_pos_of_ne_nil h
  rw [List.length_append]
  omega

/-- Tokens are read as a tree at a level, up to where operators of that level may follow. -/
structure Reads (level : Nat) (ts : List Token) (t : Tree) : Prop where
  ne_nil : ts ≠ []
  reads : ∀ rest, EndsTree (level + 1) rest →
    readTree level (ts ++ rest) = readOperands level t rest

namespace Reads

variable {l : Nat} {ts us : List Token} {t u : Tree}

theorem complete (h : Reads l ts t) {rest : List Token} (hrest : EndsTree l rest) :
    readTree l (ts ++ rest) = some (t, rest) := by
  rw [h.reads rest (hrest.mono (Nat.le_succ l)), readOperands_of_ends hrest]

theorem lower (h : Reads (l + 1) ts t) (hl : l < pathLevel)
    (hsigned : l = signLevel → ∃ first rest, ts = first :: rest ∧ first ≠ .operator .minus) :
    Reads l ts t := by
  refine ⟨h.ne_nil, fun rest hrest => ?_⟩
  have hread := h.complete hrest
  rw [readTree.eq_def]
  by_cases hsign : l = signLevel
  · obtain ⟨first, others, rfl, hfirst⟩ := hsigned hsign
    rw [if_pos hsign]
    split
    · next heq => exact absurd (List.cons.inj heq).1 hfirst
    · rw [hread, readOperands_of_levels fun op => hsign ▸ op.level_ne_signLevel]
  · rw [if_neg hsign, if_pos hl, hread]
    exact if_pos (length_lt_append h.ne_nil rest)

theorem lower_le {m : Nat} (h : Reads m ts t) (hl : l ≤ m) (hm : m ≤ pathLevel)
    (hsigned : l ≤ signLevel → signLevel < m →
      ∃ first rest, ts = first :: rest ∧ first ≠ .operator .minus) : Reads l ts t := by
  obtain ⟨k, rfl⟩ := Nat.exists_eq_add_of_le hl
  induction k generalizing l with
  | zero => exact h
  | succ k ih =>
    have hnext : Reads (l + 1) ts t := by
      refine ih (l := l + 1) ?_ (by omega) (by omega) fun h1 h2 => hsigned (by omega) (by omega)
      rw [show l + 1 + k = l + (k + 1) by omega]
      exact h
    exact hnext.lower (by omega) fun hsign => hsigned (by omega) (by omega)

theorem binary (op : Op) (ht : Reads op.level ts t)
    (hu : Reads (op.level + 1) us u) :
    Reads op.level (ts ++ [.operator op] ++ us) (.binary op t u) := by
  refine ⟨by simp, fun rest hrest => ?_⟩
  have hleft := ht.reads (.operator op :: (us ++ rest)) (.operator (Nat.lt_succ_self _) _)
  have hright := hu.complete hrest
  have hlt := length_lt_append hu.ne_nil rest
  rw [List.append_assoc, List.append_assoc, List.singleton_append, hleft, readOperands.eq_def]
  simp only [↓reduceIte, hright, hlt, Option.bind_eq_bind, Option.bind_some]

/-- Operands of one level, read from left to right. -/
theorem foldl {op : Op} {items : List (List Token × Tree)} (ht : Reads op.level ts t)
    (hitems : ∀ i ∈ items, Reads (op.level + 1) i.1 i.2) :
    Reads op.level (ts ++ items.flatMap fun i => .operator op :: i.1)
      ((items.map Prod.snd).foldl (.binary op) t) := by
  induction items generalizing ts t with
  | nil => simpa using ht
  | cons i items ih =>
    obtain ⟨hi, hothers⟩ := List.forall_mem_cons.mp hitems
    simpa using ih (.binary op ht hi) hothers

theorem chain (op : Op) (items : List (List Token × Tree)) (hne : items ≠ [])
    (hitems : ∀ i ∈ items, Reads (op.level + 1) i.1 i.2) :
    Reads op.level ([.operator op].intercalate (items.map Prod.fst))
      (.chain op (items.map Prod.snd)) := by
  have hop : op.level < pathLevel := by cases op <;> decide
  match items with
  | i :: items =>
    obtain ⟨hi, hothers⟩ := List.forall_mem_cons.mp hitems
    have hfirst := hi.lower hop fun hsign => absurd hsign op.level_ne_signLevel
    have htokens (first : List Token) : [Token.operator op].intercalate
        (first :: items.map Prod.fst) = first ++ items.flatMap fun i => .operator op :: i.1 := by
      clear hitems hothers hne
      induction items generalizing first with
      | nil => simp
      | cons j items ih => simp [ih]
    rw [List.map_cons, htokens]
    exact hfirst.foldl hothers

/-- What is read without operators is read at the level of paths. -/
theorem ofPrimary (hne : ts ≠ []) (h : ∀ rest, EndsTree (pathLevel + 1) rest →
    readPrimary (ts ++ rest) = some (t, rest)) : Reads pathLevel ts t := by
  refine ⟨hne, fun rest hrest => ?_⟩
  rw [readTree.eq_def, if_neg (by decide), if_neg (by decide), h rest hrest,
    readOperands_of_levels fun op => by cases op <;> decide]

end Reads

/-! ## Steps -/

theorem readPredicates_nil {rest : List Token} (h : EndsTree (pathLevel + 1) rest) :
    readPredicates rest = some ([], rest) := by
  rw [readPredicates.eq_def]
  split
  · next rest => simpa [goesOn] using h .openBracket (by simp)
  · rfl

theorem readPredicates_cons {ts rest rest' : List Token} {t : Tree} {trees : List Tree}
    (h : Reads 0 ts t) (hrest : readPredicates rest = some (trees, rest')) :
    readPredicates ([.openBracket] ++ ts ++ [.closeBracket] ++ rest) = some (t :: trees, rest') := by
  have hread := h.complete (.cons (t := .closeBracket) rfl rest)
  have hlt := length_lt_append h.ne_nil (.closeBracket :: rest)
  rw [readPredicates.eq_def]
  simp only [List.cons_append, List.append_assoc, List.nil_append, hread, Option.bind_eq_bind,
    Option.bind_some, if_pos (Nat.lt_of_succ_lt hlt), hrest]

theorem readTest_token {test : NodeTest} (rest : List Token) :
    readTest (test.token :: rest) = some (test.toTest, rest) := by
  cases test with
  | any => rfl
  | named name => simp [readTest, NodeTest.token, NodeTest.toTest]

theorem readAxis_tokens (axis : Axis) (rest : List Token) :
    readAxis (.axis axis.name.toList :: .axisSign :: rest) = some (axis.toName, rest) := by
  have hname : AxisName.ofName? axis.name.toList = some axis.toName := by
    cases axis <;> decide
  simp [readAxis, hname]

theorem readStep_axis (axis : Axis) (test : NodeTest) {ts rest : List Token}
    {predicates : List Tree} (h : readPredicates ts = some (predicates, rest)) :
    readStep ([.axis axis.name.toList, .axisSign, test.token] ++ ts) =
      some (.mk axis.toName test.toTest predicates, rest) := by
  have hle : ts.length ≤ ts.length + 1 + 1 := by omega
  rw [readStep.eq_def]
  simp [readAxis_tokens, readTest_token, hle, h]

theorem readStep_attribute (name : String) {rest : List Token}
    (h : EndsTree (pathLevel + 1) rest) :
    readStep ([.attributeSign, .name name.toList] ++ rest) =
      some (.mk .attribute (.named name) [], rest) := by
  rw [readStep.eq_def]
  simp [readAxis, readTest, readPredicates_nil h]

theorem readSteps_last {ts rest : List Token} {step : TreeStep}
    (h : readStep ts = some (step, rest)) (hrest : EndsTree (pathLevel + 1) rest) :
    readSteps ts = some ([step], rest) := by
  rw [readSteps.eq_def, h]
  simp only [Option.bind_eq_bind, Option.bind_some]
  split
  · simpa [goesOn] using hrest .slash (by simp)
  · simpa [goesOn] using hrest .slashes (by simp)
  · rfl

theorem readSteps_cons {ts rest rest' : List Token} {step : TreeStep} {steps : List TreeStep}
    (h : readStep ts = some (step, .slash :: rest)) (hlt : rest.length < ts.length)
    (hsteps : readSteps rest = some (steps, rest')) :
    readSteps ts = some (step :: steps, rest') := by
  rw [readSteps.eq_def, h]
  simp [hlt, hsteps]

theorem readPath_of_steps {ts rest : List Token} {steps : List TreeStep}
    (h : readSteps ts = some (steps, rest)) (fromRoot : Bool) :
    readPath fromRoot ts = some (.path fromRoot steps, rest) := by
  rw [readPath.eq_def, h]
  rfl

/-! ## Expressions -/

theorem Operator.level_lt (op : Operator) : op.toOp.level < signLevel := by
  cases op <;> decide

/-- The first token of an expression. Only a negative number starts with a sign. -/
theorem Expr.tokens_start (e : Expr) (h : e.WellFormed) :
    ∃ first rest, e.tokens = first :: rest ∧ first ≠ .closeParen ∧
      (signLevel < e.level → first ≠ .operator .minus) := by
  match e with
  | .verbatim _ => exact h.elim
  | .literal l => exact ⟨_, _, rfl, by simp, by simp⟩
  | .number n =>
    by_cases hn : n < 0
    · refine ⟨.operator .minus, [.number (Nat.toDigits 10 n.natAbs)], ?_, by simp, ?_⟩
      · simp [Expr.tokens, numberTokens, hn]
      · simp [Expr.level, hn]
    · refine ⟨.number (Nat.toDigits 10 n.natAbs), [], ?_, by simp, by simp⟩
      simp [Expr.tokens, numberTokens, hn]
  | .attributeNamed name => exact ⟨_, _, rfl, by simp, by simp⟩
  | .nodes axis test => exact ⟨_, _, rfl, by simp, by simp⟩
  | .call f arguments => exact ⟨_, _, rfl, by simp, by simp⟩
  | .group e => exact ⟨_, _, rfl, by simp, by simp⟩
  | .negation terms => exact ⟨_, _, rfl, by simp, by simp⟩
  | .same a b =>
    obtain ⟨first, rest, hfirst, hclose, -⟩ := Expr.tokens_start a h.1
    refine ⟨first, rest ++ [.operator .equal] ++ b.tokens, by simp [Expr.tokens, hfirst], hclose, ?_⟩
    exact fun hlevel => absurd hlevel (Nat.not_lt.mpr (Nat.le_of_lt Operator.equal.level_lt))
  | .binary op a b =>
    obtain ⟨first, rest, hfirst, hclose, -⟩ := Expr.tokens_start a h.1
    refine ⟨first, rest ++ [.operator op.toOp] ++ b.tokens, by simp [Expr.tokens, hfirst],
      hclose, ?_⟩
    exact fun hlevel => absurd hlevel (Nat.not_lt.mpr (Nat.le_of_lt op.level_lt))

theorem Expr.level_le_pathLevel (e : Expr) : e.level ≤ pathLevel := by
  cases e with
  | number n =>
    simp only [Expr.level]
    split <;> decide
  | verbatim text => exact Nat.zero_le _
  | same a b => exact Nat.le_of_lt (Nat.lt_trans Operator.equal.level_lt (by decide))
  | binary op a b => exact Nat.le_of_lt (Nat.lt_trans op.level_lt (by decide))
  | _ => exact Nat.le_refl _

/-- An expression is read at every level up to its own. -/
theorem Expr.reads_le {e : Expr} (h : e.WellFormed) (hreads : Reads e.level e.tokens e.tree) {l : Nat}
    (hl : l ≤ e.level) : Reads l e.tokens e.tree := by
  obtain ⟨first, rest, htokens, -, hsign⟩ := e.tokens_start h
  exact hreads.lower_le hl e.level_le_pathLevel fun _ hm => ⟨first, rest, htokens, hsign hm⟩

theorem digitsValue?_eq_ofDigitChars {s : List Char} (h : ∀ c ∈ s, isNumeral c) (n : Nat) :
    digitsValue? n s = some (Nat.ofDigitChars 10 s n) := by
  induction s generalizing n with
  | nil => simp [digitsValue?]
  | cons c s ih =>
    obtain ⟨hc, hs⟩ := List.forall_mem_cons.mp h
    have hvalue : digitValue? c = some (c.toNat - '0'.toNat) := by
      simp only [isNumeral, Bool.and_eq_true, decide_eq_true_eq] at hc
      exact if_pos hc
    rw [digitsValue?, hvalue, Option.bind_some, ih hs, Nat.ofDigitChars_cons, Nat.mul_comm]

theorem natural?_toDigits (n : Nat) : natural? (Nat.toDigits 10 n) = some n := by
  have hvalue := digitsValue?_eq_ofDigitChars (fun c => isNumeral_of_mem_toDigits (n := n)) 0
  rw [Nat.ofDigitChars_ten_toDigits] at hvalue
  cases hn : Nat.toDigits 10 n with
  | nil => exact absurd hn Nat.toDigits_ne_nil
  | cons c s =>
    rw [hn] at hvalue
    exact hvalue

theorem reads_number (n : Nat) :
    Reads pathLevel [.number (Nat.toDigits 10 n)] (.number n) := by
  refine .ofPrimary (by simp) fun rest _ => ?_
  rw [readPrimary.eq_def]
  simp [natural?_toDigits]

theorem reads_int (n : Int) : Reads (Expr.number n).level (numberTokens n) (.ofInt n) := by
  by_cases hn : n < 0
  · have hbody : Reads signLevel [.number (Nat.toDigits 10 n.natAbs)] (.number n.natAbs) :=
      (reads_number n.natAbs).lower_le (by decide) (Nat.le_refl _) fun _ _ => ⟨_, _, rfl, by simp⟩
    have hsigned : Reads signLevel [.operator .minus, .number (Nat.toDigits 10 n.natAbs)]
        (.negative (.number n.natAbs)) := by
      refine ⟨by simp, fun rest hrest => ?_⟩
      have hread := hbody.reads rest hrest
      rw [readOperands_of_levels Op.level_ne_signLevel] at hread ⊢
      rw [readTree.eq_def, if_pos rfl]
      simp only [List.singleton_append] at hread
      simp [hread]
    simpa [Expr.level, numberTokens, Tree.ofInt, hn] using hsigned
  · simpa [Expr.level, numberTokens, Tree.ofInt, hn] using reads_number n.natAbs

/-- Terms that all have to hold are read as a conjunction. -/
theorem reads_terms {terms : List Expr} (hne : terms ≠ [])
    (h : ∀ e ∈ terms, Reads (Op.and.level + 1) e.tokens e.tree) :
    Reads Op.and.level ([.operator .and].intercalate (Expr.tokensAll terms))
      (.chain .and (Expr.trees terms)) := by
  have hchain := Reads.chain .and (terms.map fun e => (e.tokens, e.tree)) (by simpa using hne)
    (by simpa using h)
  rw [Expr.tokensAll_eq_map, Expr.trees_eq_map]
  simpa [Function.comp_def] using hchain

/-- Expressions in parentheses with commas between them. -/
theorem readArguments_tokens {es : List Expr} (hne : es ≠ [])
    (h : ∀ e ∈ es, Reads 0 e.tokens e.tree) (rest : List Token) :
    readArguments ([.comma].intercalate (Expr.tokensAll es) ++ [.closeParen] ++ rest) =
      some (Expr.trees es, rest) := by
  rw [Expr.tokensAll_eq_map, Expr.trees_eq_map]
  induction es with
  | nil => exact absurd rfl hne
  | cons e es ih =>
    obtain ⟨he, hothers⟩ := List.forall_mem_cons.mp h
    rw [readArguments.eq_def]
    cases es with
    | nil =>
      have hread := he.complete (.cons (t := .closeParen) rfl rest)
      simp [hread]
    | cons next es =>
      have hrest := ih (by simp) hothers
      have hread := he.complete (.cons (t := .comma) rfl
        ([.comma].intercalate ((next :: es).map Expr.tokens) ++ [.closeParen] ++ rest))
      have hlt := length_lt_append he.ne_nil (.comma ::
        ([.comma].intercalate ((next :: es).map Expr.tokens) ++ [.closeParen] ++ rest))
      simp only [List.map_cons, List.intercalate_cons_cons, List.append_assoc, List.cons_append,
        List.nil_append] at hread hrest hlt ⊢
      simp only [hread, hrest, if_pos (Nat.lt_of_succ_lt hlt), Option.bind_eq_bind,
        Option.bind_some]

/-- A call, with arguments that do not start with a closing parenthesis. -/
theorem readPrimary_call (name : List Char) {first : Token} {ts rest : List Token}
    {arguments : List Tree} (hname : isNodeKind name = false) (hfirst : first ≠ .closeParen)
    (h : readArguments (first :: ts) = some (arguments, rest)) :
    readPrimary (.function name :: .openParen :: first :: ts) =
      some (.call (String.ofList name) arguments, rest) := by
  rw [readPrimary.eq_def]
  simp only [hname, Bool.false_eq_true, ↓reduceIte]
  split
  · next heq => exact absurd (List.cons.inj heq).1 hfirst
  · rw [h]
    rfl

theorem exprs_start {es : List Expr} (hne : es ≠ []) (h : Expr.AllWellFormed es) (sep : Token) :
    ∃ first rest, [sep].intercalate (Expr.tokensAll es) = first :: rest ∧ first ≠ .closeParen := by
  match es with
  | [e] =>
    obtain ⟨first, rest, hfirst, hclose, -⟩ := e.tokens_start h.1
    exact ⟨first, rest, by simp [Expr.tokensAll, hfirst], hclose⟩
  | e :: next :: es =>
    obtain ⟨first, rest, hfirst, hclose, -⟩ := e.tokens_start h.1
    exact ⟨first, _, by simp [Expr.tokensAll, hfirst]; rfl, hclose⟩

mutual

/-- The tokens of a well-formed expression are read as its tree. -/
theorem Expr.reads (e : Expr) (h : e.WellFormed) : Reads e.level e.tokens e.tree := by
  match e with
  | .verbatim _ => exact h.elim
  | .literal l =>
    refine .ofPrimary (by simp [Expr.tokens]) fun rest _ => ?_
    rw [readPrimary.eq_def]
    simp [Expr.tokens, Expr.tree]
  | .number n => exact reads_int n
  | .attributeNamed name =>
    refine .ofPrimary (by simp [Expr.tokens]) fun rest hrest => ?_
    have hsteps := readSteps_last (readStep_attribute name hrest) hrest
    rw [readPrimary.eq_def]
    exact readPath_of_steps hsteps false
  | .nodes axis test =>
    refine .ofPrimary (by simp [Expr.tokens]) fun rest hrest => ?_
    have hsteps := readSteps_last (readStep_axis axis test (readPredicates_nil hrest)) hrest
    rw [readPrimary.eq_def]
    exact readPath_of_steps hsteps false
  | .call f arguments =>
    have hname : isNodeKind f.name.toList = false := by cases f <;> decide
    refine .ofPrimary (by simp [Expr.tokens]) fun rest _ => ?_
    cases harguments : arguments with
    | nil =>
      rw [readPrimary.eq_def]
      simp [Expr.tokens, Expr.tokensAll, Expr.tree, Expr.trees, hname]
    | cons e es =>
      rw [← harguments]
      have hne : arguments ≠ [] := by simp [harguments]
      have hread := readArguments_tokens hne
        (fun e he => Expr.reads_le (Expr.allWellFormed_iff.mp h e he)
          (Expr.readsAll arguments h e he) (Nat.zero_le _)) rest
      obtain ⟨first, others, hstart, hclose⟩ := exprs_start hne h .comma
      rw [hstart] at hread
      have hcall := readPrimary_call _ hname hclose hread
      simpa [Expr.tokens, Expr.tree, hstart] using hcall
  | .same a b =>
    exact .binary .equal (Expr.reads_le h.1 (Expr.reads a h.1) h.2.2.1)
      (Expr.reads_le h.2.1 (Expr.reads b h.2.1) h.2.2.2)
  | .binary op a b =>
    exact .binary op.toOp (Expr.reads_le h.1 (Expr.reads a h.1) h.2.2.1)
      (Expr.reads_le h.2.1 (Expr.reads b h.2.1) h.2.2.2)
  | .group e =>
    refine .ofPrimary (by simp [Expr.tokens]) fun rest _ => ?_
    have hbody := (Expr.reads_le (e := e) h (Expr.reads e h) (Nat.zero_le _)).complete
      (.cons (t := .closeParen) rfl rest)
    rw [readPrimary.eq_def]
    simp [Expr.tokens, Expr.tree, hbody]
  | .negation terms =>
    obtain ⟨hne, hall, hlevel⟩ := h
    refine .ofPrimary (by simp [Expr.tokens]) fun rest _ => ?_
    have hterms := reads_terms hne fun e he =>
      Expr.reads_le (Expr.allWellFormed_iff.mp hall e he) (Expr.readsAll terms hall e he)
        (hlevel e he)
    have hlow := hterms.lower (l := 0) (by decide) fun h => absurd h (by decide)
    have hread := hlow.complete (.cons (t := .closeParen) rfl rest)
    have harguments : readArguments ([.operator .and].intercalate (Expr.tokensAll terms) ++
        .closeParen :: rest) = some ([.chain .and (Expr.trees terms)], rest) := by
      rw [readArguments.eq_def, hread]
      rfl
    obtain ⟨first, others, hstart, hclose⟩ := exprs_start hne hall (.operator .and)
    rw [hstart] at harguments
    have hcall := readPrimary_call "not".toList (by decide) hclose harguments
    simpa [Expr.tokens, Expr.tree, hstart] using hcall

theorem Expr.readsAll (es : List Expr) (h : Expr.AllWellFormed es) :
    ∀ e ∈ es, Reads e.level e.tokens e.tree := by
  match es with
  | [] => simp
  | e :: rest => exact List.forall_mem_cons.mpr ⟨Expr.reads e h.1, Expr.readsAll rest h.2⟩

end

/-! ## Paths -/

/-- The tokens of a conjunction are read as its tree. -/
theorem TermsWellFormed.reads {terms : List Expr} (h : TermsWellFormed terms) :
    Reads 0 ([.operator .and].intercalate (Expr.tokensAll terms))
      (.chain .and (Expr.trees terms)) := by
  have hterms := reads_terms h.ne_nil fun e he =>
    Expr.reads_le (Expr.allWellFormed_iff.mp h.all e he) (Expr.readsAll terms h.all e he)
      (h.level e he)
  exact hterms.lower (l := 0) (by decide) fun h => absurd h (by decide)

/-- The text of a conjunction is read as its tree. -/
theorem ofText?_renderTerms {terms : List Expr} (h : TermsWellFormed terms) :
    Tree.ofText? (renderTerms terms) = some (.chain .and (Expr.trees terms)) := by
  have hread := h.reads.complete (EndsTree.nil 0)
  rw [List.append_nil] at hread
  simp [Tree.ofText?, (lexes_terms h).tokens, hread]

theorem readPredicates_tokens {brackets : List (List Expr)}
    (h : ∀ terms ∈ brackets, TermsWellFormed terms) {rest : List Token}
    (hrest : readPredicates rest = some ([], rest)) :
    readPredicates (bracketTokens brackets ++ rest) =
      some (brackets.map fun terms => .chain .and (Expr.trees terms), rest) := by
  induction brackets with
  | nil => simpa [bracketTokens] using hrest
  | cons terms brackets ih =>
    obtain ⟨hterms, hothers⟩ := List.forall_mem_cons.mp h
    simpa [bracketTokens] using readPredicates_cons hterms.reads (ih hothers)

theorem readStep_tokens {step : Step} (h : step.WellFormed) {rest : List Token}
    (hrest : readPredicates rest = some ([], rest)) :
    readStep (step.tokens ++ rest) = some (step.tree, rest) := by
  have hread := readStep_axis step.axis step.test (readPredicates_tokens h.brackets hrest)
  simpa [Step.tokens, Step.tree] using hread

theorem readSteps_tokens {steps : List Step} (hne : steps ≠ [])
    (h : ∀ step ∈ steps, step.WellFormed) {rest : List Token}
    (hrest : EndsTree (pathLevel + 1) rest) :
    readSteps ([.slash].intercalate (steps.map Step.tokens) ++ rest) =
      some (steps.map Step.tree, rest) := by
  induction steps with
  | nil => exact absurd rfl hne
  | cons step steps ih =>
    obtain ⟨hstep, hothers⟩ := List.forall_mem_cons.mp h
    cases steps with
    | nil =>
      have hread := readStep_tokens hstep (readPredicates_nil hrest)
      simpa using readSteps_last hread hrest
    | cons next steps =>
      have hslash (others : List Token) :
          readPredicates (.slash :: others) = some ([], .slash :: others) := by
        rw [readPredicates.eq_def]
      have hlt := length_lt_append (show step.tokens ≠ [] by simp [Step.tokens])
        (.slash :: ([.slash].intercalate ((next :: steps).map Step.tokens) ++ rest))
      have hall := readSteps_cons (readStep_tokens hstep (hslash _)) (Nat.lt_of_succ_lt hlt)
        (ih (by simp) hothers)
      simpa using hall

/-- A path starts with an axis, after the slash for the root. -/
theorem steps_tokens_start {steps : List Step} (hne : steps ≠ []) :
    ∃ axis rest, [.slash].intercalate (steps.map Step.tokens) = Token.axis axis :: rest := by
  match steps with
  | [step] =>
    exact ⟨step.axis.name.toList, [.axisSign, step.test.token] ++ bracketTokens step.brackets,
      by simp [Step.tokens]⟩
  | step :: next :: steps =>
    exact ⟨step.axis.name.toList, [.axisSign, step.test.token] ++ bracketTokens step.brackets ++
      [.slash] ++ [.slash].intercalate ((next :: steps).map Step.tokens), by simp [Step.tokens]⟩

theorem Path.tokens_start {path : Path} (h : path.WellFormed) :
    ∃ first rest, path.tokens = first :: rest ∧ first ≠ .operator .minus := by
  obtain ⟨axis, rest, hsteps⟩ := steps_tokens_start h.ne_nil
  rw [Path.tokens, hsteps]
  cases path.fromRoot with
  | false => exact ⟨_, _, rfl, by simp⟩
  | true => exact ⟨_, _, rfl, by simp⟩

theorem Path.reads {path : Path} (h : path.WellFormed) : Reads pathLevel path.tokens path.tree := by
  obtain ⟨first, others, hfirst, -⟩ := Path.tokens_start h
  refine .ofPrimary (by simp [hfirst]) fun rest hrest => ?_
  have hsteps := readSteps_tokens h.ne_nil h.steps hrest
  obtain ⟨axis, others, hstart⟩ := steps_tokens_start h.ne_nil
  rw [hstart] at hsteps
  have hread := readPath_of_steps hsteps path.fromRoot
  rw [Path.tokens, hstart, Path.tree, readPrimary.eq_def]
  cases hroot : path.fromRoot with
  | false => simpa [hroot] using hread
  | true => simpa [hroot, Token.startsStep] using hread

theorem paths_tokens_start {paths : List Path} (hne : paths ≠ [])
    (h : ∀ path ∈ paths, path.WellFormed) :
    ∃ first rest, [.operator .union].intercalate (paths.map Path.tokens) = first :: rest ∧
      first ≠ .operator .minus := by
  match paths with
  | [path] => simpa using Path.tokens_start (h path (by simp))
  | path :: next :: paths =>
    obtain ⟨first, rest, hfirst, hminus⟩ := Path.tokens_start (h path (by simp))
    exact ⟨first, rest ++ [.operator .union] ++
      [.operator .union].intercalate ((next :: paths).map Path.tokens), by simp [hfirst], hminus⟩

/-- The text of a union of well-formed paths is read as the tree of the union. -/
theorem ofText?_renderUnion {paths : List Path} (hne : paths ≠ [])
    (h : ∀ path ∈ paths, path.WellFormed) :
    Tree.ofText? (renderUnion paths) = some (unionTree paths) := by
  have hreads : ∀ i ∈ paths.map fun p => (p.tokens, p.tree), Reads (Op.union.level + 1) i.1 i.2 := by
    intro i hi
    obtain ⟨path, hpath, rfl⟩ := List.mem_map.mp hi
    exact Path.reads (h path hpath)
  have hchain := Reads.chain .union (paths.map fun p => (p.tokens, p.tree)) (by simpa using hne)
    hreads
  simp only [List.map_map, Function.comp_def] at hchain
  have hlow := hchain.lower_le (Nat.zero_le _) (by decide) fun _ _ =>
    paths_tokens_start hne h
  have hread := hlow.complete (l := 0) (EndsTree.nil 0)
  rw [List.append_nil] at hread
  simp [Tree.ofText?, tokens_renderUnion h hne, hread, unionTree]

end SelectorPath.XPath
