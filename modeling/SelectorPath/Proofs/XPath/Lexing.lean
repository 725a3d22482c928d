import SelectorPath.Proofs.XPath.Tree

/-!
The tokens of the texts of expressions. `Lexes` says that a text, before another text, is cut
into given tokens; the texts of well-formed expressions are cut into `Expr.tokens` before
every text that does not go on with a name (`Stops`).
-/

namespace SelectorPath.XPath

open Text Syntax

/-! ## Texts before texts -/

/-- A text before `rest` is cut into tokens, and the rest of it is cut on its own. -/
def Lexes (before : Bool) (s : List Char) (tokens : List Token) (after : Bool)
    (rest : List Char) : Prop :=
  tokensFrom before (s ++ rest) = (tokensFrom after rest).map (tokens ++ ·)

namespace Lexes

variable {a b c : Bool} {s t rest : List Char} {ts us : List Token}

theorem refl : Lexes a [] [] a rest := by
  simp [Lexes]

theorem trans (h : Lexes a s ts b (t ++ rest)) (h' : Lexes b t us c rest) :
    Lexes a (s ++ t) (ts ++ us) c rest := by
  unfold Lexes at *
  rw [List.append_assoc, h, h', Option.map_map]
  simp [Function.comp_def]

/-- White space is left out. -/
theorem blank (rest : List Char) : Lexes a [' '] [] a rest := by
  unfold Lexes
  rw [List.singleton_append, tokensFrom, if_pos (show isXmlSpace ' ' from rfl)]
  simp

theorem token {x : Char} (token : Token) (hx : isXmlSpace x = false)
    (h : nextToken a (x :: (s ++ rest)) = some (token, rest)) :
    Lexes a (x :: s) [token] token.endsOperand rest := by
  have hle : rest.length ≤ (s ++ rest).length := by
    rw [List.length_append]
    omega
  unfold Lexes
  rw [List.cons_append, tokensFrom, if_neg (by simp [hx])]
  simp only [h, hle, ↓reduceIte, Option.bind_eq_bind, Option.bind_some, List.singleton_append]

/-- A token of one character. -/
theorem sign (x : Char) (token : Token) (hx : isXmlSpace x = false)
    (h : nextToken a (x :: rest) = some (token, rest)) :
    Lexes a [x] [token] token.endsOperand rest :=
  Lexes.token (s := []) token hx h

end Lexes

/-! ## Single tokens -/

/-- After such a text a name is whole and is a name test. -/
structure Stops (rest : List Char) : Prop where
  name : headIs isAttributePart rest = false
  plain : ∀ name, classify false name rest = some (.name name)

namespace Stops

theorem nil : Stops [] := ⟨rfl, fun _ => rfl⟩

theorem cons {x : Char} (h : x ∈ ")],=/[".toList) (rest : List Char) : Stops (x :: rest) := by
  have hx : ∀ x ∈ ")],=/[".toList, isAttributePart x = false :=
    forall_mem_of_all (by decide +kernel)
  refine ⟨hx x h, fun name => ?_⟩
  have hlist : x = ')' ∨ x = ']' ∨ x = ',' ∨ x = '=' ∨ x = '/' ∨ x = '[' := by simpa using h
  rcases hlist with rfl | rfl | rfl | rfl | rfl | rfl <;> rfl

theorem blank {x : Char} (h : isXmlSpace x = false) (hparen : x ≠ '(') (hcolon : x ≠ ':')
    (rest : List Char) : Stops (' ' :: x :: rest) := by
  refine ⟨show isAttributePart ' ' = false by decide +kernel, fun name => ?_⟩
  have hdrop : (' ' :: x :: rest).dropWhile isXmlSpace = x :: rest := by
    simp [h, show isXmlSpace ' ' = true from rfl]
  simp only [classify, Bool.false_eq_true, ↓reduceIte, hdrop]
  split
  · next heq => exact absurd (List.cons.inj heq).1 hparen
  · next heq => exact absurd (List.cons.inj heq).1 hcolon
  · rfl

end Stops

theorem isNumeral_iff (c : Char) : isNumeral c ↔ 48 ≤ c.toNat ∧ c.toNat ≤ 57 := by
  simp only [isNumeral, Bool.and_eq_true, decide_eq_true_eq, Char.le_def, UInt32.le_iff_toNat_le]
  rfl

theorem isNumeral_of_isNameStart {c : Char} (h : isNameStart c) : isNumeral c = false := by
  have hpart := (isPseudoPart_iff c).mp (by simp [isPseudoPart, h])
  have hnot : ¬ isNumeral c := by
    rw [isNumeral_iff]
    omega
  simpa using hnot

/-- The character that a name starts with starts no other token. -/
theorem nextToken_name {a : Bool} {x : Char} {s rest : List Char} (hx : isNameStart x)
    (hs : ∀ y ∈ s, isAttributePart y) (hrest : headIs isAttributePart rest = false) :
    nextToken a (x :: (s ++ rest)) = (classify a (x :: s) rest).map (·, rest) := by
  obtain ⟨htake, hdrop⟩ := span_iff.mpr ⟨rfl, hs, hrest⟩
  have hsigns : ∀ y ∈ "()[],@:/|+-=!<>*.\"'".toList, isNameStart y = false :=
    forall_mem_of_all rfl
  have hne : ∀ y ∈ "()[],@:/|+-=!<>*.\"'".toList, x ≠ y := by
    rintro y hy rfl
    simp [hsigns x hy] at hx
  have hnumeral := isNumeral_of_isNameStart hx
  unfold nextToken
  split
  all_goals first
    | (next heq => exact absurd (List.cons.inj heq).1 (hne _ (by decide)))
    | skip
  · next heq => simp at heq
  · next heq =>
    obtain ⟨rfl, rfl⟩ := List.cons.inj heq
    simp [hne '"' (by decide), hne '\'' (by decide), hne '.' (by decide), hnumeral, hx, htake, hdrop]

/-- A name in front of what makes it of some sort. -/
theorem lexes_name {a : Bool} {name rest : List Char} (token : Token)
    (hname : Headed isNameStart isAttributePart name) (hrest : headIs isAttributePart rest = false)
    (h : classify a name rest = some token) : Lexes a name [token] token.endsOperand rest := by
  obtain ⟨x, s, rfl, hx, hs⟩ := hname
  have hspace : isXmlSpace x = false := by
    cases hsp : isXmlSpace x with
    | false => rfl
    | true =>
      have hpart := isNamePart_of_isPseudoPart (c := x) (by simp [isPseudoPart, hx])
      have hnot := isSpace_of_isXmlSpace hsp
      simp [isSpace_of_isNamePart hpart] at hnot
  exact .token token hspace (by rw [nextToken_name hx hs hrest, h]; rfl)

theorem nextToken_quote (a : Bool) (quote : Quote) (s : List Char) :
    nextToken a (quote.char :: s) = match s.dropWhile (· ≠ quote.char) with
      | [] => none
      | _ :: rest => some (.literal (s.takeWhile (· ≠ quote.char)), rest) := by
  cases quote <;> rfl

theorem lexes_literal (quote : Quote) {text rest : List Char} (h : quote.char ∉ text) :
    Lexes false (quote.char :: (text ++ [quote.char])) [.literal text] true rest := by
  obtain ⟨htake, hdrop⟩ : (text ++ quote.char :: rest).takeWhile (· ≠ quote.char) = text ∧
      (text ++ quote.char :: rest).dropWhile (· ≠ quote.char) = quote.char :: rest := by
    refine span_iff.mpr ⟨rfl, fun y hy => ?_, by simp⟩
    simpa using fun heq : y = quote.char => h (heq ▸ hy)
  refine Lexes.token (.literal text) (by cases quote <;> rfl) ?_
  rw [List.append_assoc, List.singleton_append, nextToken_quote, hdrop, htake]

/-- Digits are a number that has no fraction. -/
theorem nextToken_number {a : Bool} {x : Char} {s rest : List Char} (hx : isNumeral x)
    (hs : ∀ y ∈ s, isNumeral y) (hrest : headIs isNumeral rest = false)
    (hdot : headIs (· == '.') rest = false) :
    nextToken a (x :: (s ++ rest)) = some (.number (x :: s), rest) := by
  obtain ⟨htake, hdrop⟩ := span_iff.mpr
    (⟨rfl, List.forall_mem_cons.mpr ⟨hx, hs⟩, hrest⟩ :
      x :: (s ++ rest) = (x :: s) ++ rest ∧ (∀ y ∈ x :: s, isNumeral y) ∧ _)
  have hsigns : ∀ y ∈ "()[],@:/|+-=!<>*.\"'".toList, isNumeral y = false :=
    forall_mem_of_all rfl
  have hne : ∀ y ∈ "()[],@:/|+-=!<>*.\"'".toList, x ≠ y := by
    rintro y hy rfl
    simp [hsigns x hy] at hx
  have hfraction : splitFraction rest = ([], rest) := by
    unfold splitFraction
    split
    · simp at hdot
    · rfl
  unfold nextToken
  split
  all_goals first
    | (next heq => exact absurd (List.cons.inj heq).1 (hne _ (by decide)))
    | skip
  · next heq => simp at heq
  · next heq =>
    obtain ⟨rfl, rfl⟩ := List.cons.inj heq
    simp only [hne '"' (by decide), hne '\'' (by decide), or_self, ↓reduceIte, hx, Bool.true_or,
      htake, hdrop, hfraction, List.append_nil]

theorem isNumeral_of_mem_toDigits {n : Nat} {c : Char} (h : c ∈ Nat.toDigits 10 n) :
    isNumeral c := by
  have hdigit := Nat.isDigit_of_mem_toDigits (by decide) (by decide) h
  have hrange : (48 : UInt32) ≤ c.val ∧ c.val ≤ 57 := by simpa [Char.isDigit] using hdigit
  simp only [isNumeral, Bool.and_eq_true, decide_eq_true_eq]
  exact hrange

theorem isAttributePart_of_isNumeral {c : Char} (h : isNumeral c) : isAttributePart c := by
  obtain ⟨h1, h2⟩ := (isNumeral_iff c).mp h
  have hword : isWord c := inRanges_of_covers (0x30, 0x39) (by decide +kernel) h1 h2
  simp [isAttributePart, isNamePart, hword]

theorem isNumeral_of_isXmlSpace {c : Char} (h : isXmlSpace c) : isNumeral c = false :=
  of_isXmlSpace (P := fun x => isNumeral x = false) h (forall_mem_of_all rfl)

theorem lexes_number (n : Nat) {rest : List Char} (h : headIs isAttributePart rest = false) :
    Lexes false (Nat.toDigits 10 n) [.number (Nat.toDigits 10 n)] true rest := by
  have hdigits : ∀ c ∈ Nat.toDigits 10 n, isNumeral c := fun c => isNumeral_of_mem_toDigits
  have hdot : headIs (· == '.') rest = false := by
    cases rest with
    | nil => rfl
    | cons c r =>
      have hne : c ≠ '.' := by rintro rfl; exact absurd h (by simp [isAttributePart])
      simpa using hne
  have hnumeral : headIs isNumeral rest = false := by
    cases rest with
    | nil => rfl
    | cons c r =>
      cases hc : isNumeral c with
      | false => exact hc
      | true => simp [isAttributePart_of_isNumeral hc] at h
  cases hn : Nat.toDigits 10 n with
  | nil => exact absurd hn Nat.toDigits_ne_nil
  | cons x s =>
    rw [hn] at hdigits
    obtain ⟨hx, hs⟩ := List.forall_mem_cons.mp hdigits
    have hspace : isXmlSpace x = false := by
      cases hsp : isXmlSpace x with
      | false => rfl
      | true => simp [isNumeral_of_isXmlSpace hsp] at hx
    exact .token (.number (x :: s)) hspace (nextToken_number hx hs hnumeral hdot)

/-! ## Expressions -/

def NodeTest.token : NodeTest → Token
  | .any => .star
  | .named name => .name name.toList

/-- The tokens of a number with its sign. -/
def numberTokens (n : Int) : List Token :=
  if n < 0 then [.operator .minus, .number (Nat.toDigits 10 n.natAbs)]
  else [.number (Nat.toDigits 10 n.natAbs)]

mutual

def Expr.tokens : Expr → List Token
  | .verbatim _ => []
  | .literal l => [.literal l.text.toList]
  | .number n => numberTokens n
  | .attributeNamed name => [.attributeSign, .name name.toList]
  | .nodes axis test => [.axis axis.name.toList, .axisSign, test.token]
  | .call f arguments =>
    [.function f.name.toList, .openParen] ++ [.comma].intercalate (Expr.tokensAll arguments) ++
      [.closeParen]
  | .same a b => a.tokens ++ [.operator .equal] ++ b.tokens
  | .binary op a b => a.tokens ++ [.operator op.toOp] ++ b.tokens
  | .group e => [.openParen] ++ e.tokens ++ [.closeParen]
  | .negation terms =>
    [.function "not".toList, .openParen] ++
      [.operator .and].intercalate (Expr.tokensAll terms) ++ [.closeParen]

def Expr.tokensAll : List Expr → List (List Token)
  | [] => []
  | e :: rest => e.tokens :: Expr.tokensAll rest

end

theorem Expr.renderAll_eq_map (es : List Expr) : Expr.renderAll es = es.map Expr.render := by
  induction es with
  | nil => rfl
  | cons e es ih => simp [Expr.renderAll, ih]

theorem Expr.tokensAll_eq_map (es : List Expr) : Expr.tokensAll es = es.map Expr.tokens := by
  induction es with
  | nil => rfl
  | cons e es ih => simp [Expr.tokensAll, ih]

/-- A text that is cut into tokens wherever an expression can stand. -/
def LexesAlone (s : List Char) (tokens : List Token) : Prop :=
  ∀ rest, Stops rest → Lexes false s tokens true rest

/-- A text that is cut alone is cut as a whole. -/
theorem LexesAlone.tokens {s : List Char} {ts : List Token} (h : LexesAlone s ts) :
    Syntax.tokens s = some ts := by
  have hnil : tokensFrom true [] = some [] := by
    rw [tokensFrom]
  have hall := h [] .nil
  rw [Lexes, List.append_nil, hnil, Option.map_some, List.append_nil] at hall
  exact hall

/-- What stands between expressions. -/
structure Separates (sep : List Char) (token : Token) : Prop where
  lexes : ∀ rest, Lexes true sep [token] false rest
  stops : ∀ rest, Stops (sep ++ rest)

theorem lexes_intercalate {sep : List Char} {token : Token} (hsep : Separates sep token)
    {α : Type} (text : α → List Char) (tokens : α → List Token) {parts : List α}
    (hparts : ∀ p ∈ parts, LexesAlone (text p) (tokens p)) (hne : parts ≠ []) :
    LexesAlone (sep.intercalate (parts.map text)) ([token].intercalate (parts.map tokens)) := by
  intro rest hrest
  induction parts with
  | nil => exact absurd rfl hne
  | cons p parts ih =>
    obtain ⟨hp, hothers⟩ := List.forall_mem_cons.mp hparts
    cases parts with
    | nil => simpa using hp rest hrest
    | cons q parts =>
      have hq := ih hothers (by simp)
      have hstart := hp _ (hsep.stops (sep.intercalate ((q :: parts).map text) ++ rest))
      rw [← List.append_assoc] at hstart
      simpa using hstart.trans ((hsep.lexes _).trans hq)

theorem separates_comma : Separates ", ".toList .comma where
  lexes rest := by
    have h := (Lexes.sign (a := true) ',' .comma rfl rfl).trans (Lexes.blank rest)
    simpa [Token.endsOperand] using h
  stops rest := .cons (by decide) _

/-- A separator has a blank on each side of its token. -/
theorem separates_of_lexes {x : Char} {s : List Char} {token : Token}
    (h : ∀ rest, Lexes true (x :: s) [token] false (' ' :: rest))
    (hspace : isXmlSpace x = false) (hparen : x ≠ '(') (hcolon : x ≠ ':') :
    Separates (' ' :: x :: (s ++ [' '])) token where
  lexes rest := by
    have hall := (Lexes.blank (a := true) (x :: (s ++ [' ']) ++ rest)).trans
      ((h rest).trans (Lexes.blank rest))
    simpa using hall
  stops rest := .blank hspace hparen hcolon _

theorem separates_named {x : Char} {s : List Char} {op : Op} (hx : isNameStart x)
    (hs : ∀ y ∈ s, isAttributePart y) (hop : operatorNamed? (x :: s) = some op) :
    Separates (' ' :: x :: (s ++ [' '])) (.operator op) := by
  have hne : ∀ y, isNameStart y = false → x ≠ y := by
    rintro y hy rfl
    simp [hx] at hy
  refine separates_of_lexes (fun rest => ?_) ?_ (hne '(' rfl) (hne ':' rfl)
  · exact lexes_name (.operator op) ⟨x, s, rfl, hx, hs⟩
      (show isAttributePart ' ' = false by decide +kernel) (by simp [classify, hop])
  · simp [isXmlSpace, hne ' ' rfl, hne '\t' rfl, hne '\n' rfl, hne '\r' rfl]

theorem separates_and : Separates " and ".toList (.operator .and) :=
  separates_named (x := 'a') (s := ['n', 'd']) rfl (forall_mem_of_all (by decide +kernel)) rfl

theorem separates_union : Separates unionSign.toList (.operator .union) :=
  separates_of_lexes (x := '|') (s := []) (fun _ => .sign '|' (.operator .union) rfl rfl) rfl (by decide) (by decide)

theorem separates_operator (op : Operator) :
    Separates (" ".toList ++ op.symbol.toList ++ " ".toList) (.operator op.toOp) := by
  cases op with
  | or => exact separates_named (x := 'o') (s := ['r']) rfl (forall_mem_of_all (by decide +kernel)) rfl
  | mod => exact separates_named (x := 'm') (s := ['o', 'd']) rfl (forall_mem_of_all (by decide +kernel)) rfl
  | equal =>
    exact separates_of_lexes (x := '=') (s := []) (fun _ => .sign '=' (.operator .equal) rfl rfl) rfl (by decide)
      (by decide)
  | plus =>
    exact separates_of_lexes (x := '+') (s := []) (fun _ => .sign '+' (.operator .plus) rfl rfl) rfl (by decide)
      (by decide)
  | minus =>
    exact separates_of_lexes (x := '-') (s := []) (fun _ => .sign '-' (.operator .minus) rfl rfl) rfl (by decide)
      (by decide)
  | atMost =>
    exact separates_of_lexes (x := '<') (s := ['=']) (fun _ => .token (.operator .atMost) rfl rfl) rfl (by decide)
      (by decide)
  | atLeast =>
    exact separates_of_lexes (x := '>') (s := ['=']) (fun _ => .token (.operator .atLeast) rfl rfl) rfl (by decide)
      (by decide)

/-- An equation without blanks. -/
theorem separates_equal : Separates ['='] (.operator .equal) where
  lexes _ := .sign '=' (.operator .equal) rfl rfl
  stops _ := .cons (by decide) _

theorem LexesAlone.separated {sep s t : List Char} {token : Token} {ts us : List Token}
    (hsep : Separates sep token) (hs : LexesAlone s ts) (ht : LexesAlone t us) :
    LexesAlone (s ++ sep ++ t) (ts ++ [token] ++ us) := by
  intro rest hrest
  have hstart := hs _ (hsep.stops (t ++ rest))
  exact (hstart.trans (hsep.lexes _)).trans (ht rest hrest)

/-- An expression, or nothing, in parentheses. -/
theorem lexes_parens {a : Bool} {s rest : List Char} {ts : List Token}
    (h : (s = [] ∧ ts = []) ∨ LexesAlone s ts) :
    Lexes a (['('] ++ s ++ [')']) ([.openParen] ++ ts ++ [.closeParen]) true rest := by
  have hopen : Lexes a ['('] [.openParen] false (s ++ ([')'] ++ rest)) := .sign '(' .openParen rfl rfl
  have hclose : ∀ b, Lexes b [')'] [.closeParen] true rest := fun b => .sign ')' .closeParen rfl rfl
  rcases h with ⟨rfl, rfl⟩ | h
  · exact Lexes.trans (t := [')']) hopen (hclose false)
  · have hbody := h ([')'] ++ rest) (.cons (by decide) rest)
    exact (hopen.trans hbody).trans (hclose true)

/-- A call of a function. -/
theorem lexes_call {name s : List Char} {ts : List Token}
    (hname : Headed isNameStart isAttributePart name) (h : (s = [] ∧ ts = []) ∨ LexesAlone s ts) :
    LexesAlone (name ++ (['('] ++ s ++ [')']))
      ([.function name] ++ ([.openParen] ++ ts ++ [.closeParen])) := by
  intro rest _
  have hparen : isAttributePart '(' = false := by decide +kernel
  have hfunction : Lexes false name [.function name] true (['('] ++ s ++ [')'] ++ rest) :=
    lexes_name (.function name) hname hparen rfl
  exact hfunction.trans (lexes_parens h)

theorem lexes_nodeTest {test : NodeTest} (h : test.WellFormed) {rest : List Char}
    (hrest : Stops rest) : Lexes false test.render.toList [test.token] true rest := by
  cases test with
  | any => exact Lexes.sign '*' .star rfl rfl
  | named name => exact lexes_name (.name name.toList) h hrest.name (hrest.plain _)

/-- The start of a location step. -/
theorem lexes_axis (axis : Axis) {test : NodeTest} (h : test.WellFormed) :
    LexesAlone (axis.name.toList ++ "::".toList ++ test.render.toList)
      ([.axis axis.name.toList, .axisSign, test.token]) := by
  intro rest hrest
  have hname : Headed isNameStart isAttributePart axis.name.toList := by
    cases axis <;> exact ⟨_, _, rfl, rfl, forall_mem_of_all (by decide +kernel)⟩
  have hcolon : isAttributePart ':' = false := by decide +kernel
  have haxis : Lexes false axis.name.toList [.axis axis.name.toList] true
      ("::".toList ++ (test.render.toList ++ rest)) :=
    lexes_name (.axis axis.name.toList) hname hcolon rfl
  have hsign : Lexes true "::".toList [.axisSign] false (test.render.toList ++ rest) :=
    Lexes.token (x := ':') (s := [':']) .axisSign rfl rfl
  exact (haxis.trans hsign).trans (lexes_nodeTest h hrest)

theorem lexes_int (n : Int) : LexesAlone (toString n).toList (numberTokens n) := by
  intro rest hrest
  cases n with
  | ofNat m =>
    have htext : (toString (Int.ofNat m)).toList = Nat.toDigits 10 m := Nat.toList_repr
    rw [htext]
    exact lexes_number m hrest.name
  | negSucc m =>
    have htext : (toString (Int.negSucc m)).toList = ['-'] ++ Nat.toDigits 10 (m + 1) := by
      rw [← Nat.toList_repr]
      exact String.toList_append
    have htokens : numberTokens (Int.negSucc m) =
        [.operator .minus] ++ [.number (Nat.toDigits 10 (m + 1))] :=
      if_pos (Int.negSucc_lt_zero m)
    rw [htext, htokens]
    have hsign : Lexes false ['-'] [.operator .minus] false (Nat.toDigits 10 (m + 1) ++ rest) :=
      .sign '-' (.operator .minus) rfl rfl
    exact hsign.trans (lexes_number (m + 1) hrest.name)

/-- Expressions with a separator between them, if there are any. -/
theorem lexes_exprs {sep : String} {token : Token} (hsep : Separates sep.toList token)
    {es : List Expr} (h : ∀ e ∈ es, LexesAlone e.render.toList e.tokens) :
    ((sep.intercalate (Expr.renderAll es)).toList = [] ∧
        [token].intercalate (Expr.tokensAll es) = []) ∨
      LexesAlone (sep.intercalate (Expr.renderAll es)).toList
        ([token].intercalate (Expr.tokensAll es)) := by
  rw [String.toList_intercalate, Expr.renderAll_eq_map, Expr.tokensAll_eq_map, List.map_map]
  cases es with
  | nil => exact .inl ⟨rfl, rfl⟩
  | cons e es => exact .inr (lexes_intercalate hsep _ _ h (by simp))

mutual

/-- The text of a well-formed expression is cut into its tokens. -/
theorem Expr.lexes (e : Expr) (h : e.WellFormed) : LexesAlone e.render.toList e.tokens := by
  match e with
  | .verbatim text => exact h.elim
  | .literal l =>
    intro rest _
    simpa [Expr.render, Literal.render, Expr.tokens] using lexes_literal l.quote h
  | .number n => exact lexes_int n
  | .attributeNamed name =>
    intro rest hrest
    have hname : Lexes false name.toList [.name name.toList] true rest :=
      lexes_name (.name name.toList) h hrest.name (hrest.plain _)
    have hsign : Lexes false ['@'] [.attributeSign] false (name.toList ++ rest) := .sign '@' .attributeSign rfl rfl
    simpa [Expr.render, Expr.tokens] using hsign.trans hname
  | .nodes axis test => simpa [Expr.render, Expr.tokens] using lexes_axis axis h
  | .call f arguments =>
    have hname : Headed isNameStart isAttributePart f.name.toList := by
      cases f <;> exact ⟨_, _, rfl, rfl, forall_mem_of_all (by decide +kernel)⟩
    have harguments := lexes_exprs separates_comma (Expr.lexesAll arguments h)
    simpa [Expr.render, Expr.tokens] using lexes_call hname harguments
  | .same a b =>
    have hab := LexesAlone.separated separates_equal (Expr.lexes a h.1) (Expr.lexes b h.2.1)
    simpa [Expr.render, Expr.tokens] using hab
  | .binary op a b =>
    have hab := LexesAlone.separated (separates_operator op) (Expr.lexes a h.1)
      (Expr.lexes b h.2.1)
    simpa [Expr.render, Expr.tokens] using hab
  | .group e =>
    intro rest _
    simpa [Expr.render, Expr.tokens] using lexes_parens (a := false) (.inr (Expr.lexes e h))
  | .negation terms =>
    have hname : Headed isNameStart isAttributePart "not".toList :=
      ⟨'n', ['o', 't'], rfl, rfl, forall_mem_of_all (by decide +kernel)⟩
    have hterms := lexes_exprs separates_and (Expr.lexesAll terms h.2.1)
    simpa [Expr.render, Expr.tokens] using lexes_call hname hterms

theorem Expr.lexesAll (es : List Expr) (h : Expr.AllWellFormed es) :
    ∀ e ∈ es, LexesAlone e.render.toList e.tokens := by
  match es with
  | [] => simp
  | e :: rest => exact List.forall_mem_cons.mpr ⟨Expr.lexes e h.1, Expr.lexesAll rest h.2⟩

end

/-! ## Paths -/

/-- The tokens of predicates in their brackets. -/
def bracketTokens (brackets : List (List Expr)) : List Token :=
  brackets.flatMap fun terms =>
    [.openBracket] ++ [.operator .and].intercalate (Expr.tokensAll terms) ++ [.closeBracket]

def Step.tokens (step : Step) : List Token :=
  [.axis step.axis.name.toList, .axisSign, step.test.token] ++ bracketTokens step.brackets

def Path.tokens (path : Path) : List Token :=
  (if path.fromRoot then [.slash] else []) ++ [.slash].intercalate (path.steps.map Step.tokens)

def bracketText (terms : List Expr) : List Char :=
  ['['] ++ (renderTerms terms).toList ++ [']']

theorem lexes_terms {terms : List Expr} (h : TermsWellFormed terms) :
    LexesAlone (renderTerms terms).toList
      ([.operator .and].intercalate (Expr.tokensAll terms)) := by
  unfold renderTerms
  rw [String.toList_intercalate, Expr.renderAll_eq_map, Expr.tokensAll_eq_map, List.map_map]
  exact lexes_intercalate separates_and _ _ (Expr.lexesAll terms h.all) h.ne_nil

theorem lexes_bracket {terms : List Expr} (h : TermsWellFormed terms) {rest : List Char} :
    Lexes true (bracketText terms)
      ([.openBracket] ++ [.operator .and].intercalate (Expr.tokensAll terms) ++ [.closeBracket])
      true rest := by
  have hopen : Lexes true ['['] [.openBracket] false
      ((renderTerms terms).toList ++ ([']'] ++ rest)) := .sign '[' .openBracket rfl rfl
  have hclose : Lexes true [']'] [.closeBracket] true rest := .sign ']' .closeBracket rfl rfl
  exact (hopen.trans (lexes_terms h _ (.cons (by decide) rest))).trans hclose

theorem lexes_brackets {brackets : List (List Expr)} (h : ∀ terms ∈ brackets, TermsWellFormed terms)
    {rest : List Char} :
    Lexes true (brackets.flatMap bracketText) (bracketTokens brackets) true rest := by
  induction brackets with
  | nil => exact .refl
  | cons terms brackets ih =>
    obtain ⟨hterms, hothers⟩ := List.forall_mem_cons.mp h
    exact (lexes_bracket hterms).trans (ih hothers)

theorem Step.lexes {step : Step} (h : step.WellFormed) :
    LexesAlone step.render.toList step.tokens := by
  intro rest hrest
  have hstops : Stops (step.brackets.flatMap bracketText ++ rest) := by
    cases step.brackets with
    | nil => exact hrest
    | cons terms brackets => exact .cons (by decide) _
  have htext : step.render.toList =
      step.axis.name.toList ++ "::".toList ++ step.test.render.toList ++
        step.brackets.flatMap bracketText := by
    simp [Step.render, String.toList_join, List.flatMap_map]
    rfl
  rw [htext]
  exact (lexes_axis step.axis h.test _ hstops).trans (lexes_brackets h.brackets)

/-- Before a name there is a single slash. -/
theorem lexes_slash {a : Bool} {s : List Char} (h : headIs isNameStart s) :
    Lexes a ['/'] [.slash] false s := by
  refine .sign '/' .slash rfl ?_
  cases s with
  | nil => simp at h
  | cons x s =>
    have hx : x ≠ '/' := by rintro rfl; exact absurd (show isNameStart '/' from h) (by decide)
    simp [nextToken, hx]

theorem steps_start (steps : List Step) (h : steps ≠ []) (rest : List Char) :
    headIs isNameStart ("/".toList.intercalate (steps.map (·.render.toList)) ++ rest) := by
  have hstep (step : Step) (rest : List Char) : headIs isNameStart (step.render.toList ++ rest) := by
    rw [Step.render, String.append_assoc, String.append_assoc, String.toList_append]
    cases step.axis <;> rfl
  match steps with
  | [step] => simpa using hstep step rest
  | step :: next :: steps => simpa using hstep step _

theorem lexes_steps {steps : List Step} (h : ∀ step ∈ steps, step.WellFormed)
    (hne : steps ≠ []) : LexesAlone ("/".toList.intercalate (steps.map (·.render.toList)))
      ([.slash].intercalate (steps.map Step.tokens)) := by
  intro rest hrest
  induction steps with
  | nil => exact absurd rfl hne
  | cons step steps ih =>
    obtain ⟨hstep, hothers⟩ := List.forall_mem_cons.mp h
    cases steps with
    | nil => simpa using Step.lexes hstep rest hrest
    | cons next steps =>
      have hnext := ih hothers (by simp)
      have hslash := lexes_slash (a := true) (steps_start (next :: steps) (by simp) rest)
      have hstart := Step.lexes hstep (['/'] ++
        "/".toList.intercalate ((next :: steps).map (·.render.toList)) ++ rest)
        (.cons (by decide) _)
      simpa using hstart.trans (hslash.trans hnext)

theorem Path.lexes {path : Path} (h : path.WellFormed) :
    LexesAlone path.render.toList path.tokens := by
  intro rest hrest
  have hsteps := lexes_steps h.steps h.ne_nil rest hrest
  have htext : ("/".intercalate (path.steps.map Step.render)).toList =
      "/".toList.intercalate (path.steps.map (·.render.toList)) := by
    rw [String.toList_intercalate, List.map_map]
    rfl
  rw [Path.render, Path.tokens, String.toList_append, htext]
  cases path.fromRoot with
  | false => simpa using hsteps
  | true =>
    have hslash := lexes_slash (a := false) (steps_start path.steps h.ne_nil rest)
    simpa using hslash.trans hsteps

theorem tokens_renderUnion {paths : List Path} (h : ∀ path ∈ paths, path.WellFormed)
    (hne : paths ≠ []) : Syntax.tokens (renderUnion paths).toList =
      some ([.operator .union].intercalate (paths.map Path.tokens)) := by
  have hpaths := lexes_intercalate separates_union (fun p : Path => p.render.toList) Path.tokens
    (fun path hpath => Path.lexes (h path hpath)) hne
  have htext : (renderUnion paths).toList =
      unionSign.toList.intercalate (paths.map fun p => p.render.toList) := by
    rw [renderUnion, String.toList_intercalate, List.map_map]
    rfl
  rw [htext]
  exact hpaths.tokens

end SelectorPath.XPath
