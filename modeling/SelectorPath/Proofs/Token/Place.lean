import SelectorPath.Proofs.Token.Language
import SelectorPath.Reader

/-!
Places in a text and the tokens of the standard lexicon there. `Cursor.Takes` says that one
place lies a text after another; `Lexicon.token_iff` and `Lexicon.skip_spaces_iff` say which
tokens are found and how far white space is left out.
-/

namespace SelectorPath

open Text

namespace Cursor

/-- One place lies a text after another. -/
structure Takes (c : Cursor) (text : List Char) (after : Cursor) : Prop where
  rest : c.rest = text ++ after.rest
  offset : after.offset = c.offset + byteLength text

namespace Takes

variable {c d e : Cursor} {s t : List Char}

theorem refl (c : Cursor) : c.Takes [] c := ⟨rfl, rfl⟩

theorem trans (h : c.Takes s d) (h' : d.Takes t e) : c.Takes (s ++ t) e :=
  ⟨by rw [h.rest, h'.rest, List.append_assoc],
   by rw [h'.offset, h.offset, byteLength_append, Nat.add_assoc]⟩

/-- A text leads to one place only. -/
theorem unique (h : c.Takes s d) (h' : c.Takes s e) : d = e := by
  obtain ⟨o, r⟩ := d
  obtain ⟨o', r'⟩ := e
  have hr : r = r' := List.append_cancel_left (h.rest.symm.trans h'.rest)
  have ho : o = o' := h.offset.trans h'.offset.symm
  rw [hr, ho]

/-- The place between two texts. -/
theorem split (h : c.Takes (s ++ t) e) : ∃ d, c.Takes s d ∧ d.Takes t e :=
  ⟨c.advance s (t ++ e.rest), ⟨by rw [h.rest, List.append_assoc]; rfl, rfl⟩,
   ⟨rfl, by rw [h.offset, byteLength_append, ← Nat.add_assoc]; rfl⟩⟩

theorem advance (c : Cursor) (h : c.rest = s ++ t) : c.Takes s (c.advance s t) := ⟨h, rfl⟩

theorem length_lt (h : c.Takes s d) (hs : s ≠ []) : d.rest.length < c.rest.length := by
  rw [h.rest, List.length_append]
  have := List.length_pos_iff.mpr hs
  omega

end Takes

end Cursor

namespace Lexicon

theorem token_eq_some_iff {lexicon : Lexicon} {kind : TokenKind} {c after : Cursor}
    {text : List Char} : lexicon.token kind c = some (text, after) ↔
      (lexicon kind).run c.rest = some (text, after.rest) ∧ c.Takes text after := by
  simp only [token, Option.map_eq_some_iff, Prod.exists, Prod.mk.injEq]
  constructor
  · rintro ⟨t, rest, h, rfl, rfl⟩
    exact ⟨h, .advance c ((lexicon kind).sound h).2.symm⟩
  · rintro ⟨h, ht⟩
    refine ⟨text, after.rest, h, rfl, ?_⟩
    exact (Cursor.Takes.advance c ht.rest).unique ht

/-- The token of a kind at a place of the standard notation. -/
theorem token_iff {kind : TokenKind} {c after : Cursor} {text : List Char} :
    standard.token kind c = some (text, after) ↔
      kind.IsText text ∧ c.Takes text after ∧ headIs kind.goesOn after.rest = false := by
  rw [token_eq_some_iff]
  change kind.pattern.take? c.rest = _ ∧ _ ↔ _
  rw [TokenKind.take?_iff]
  constructor
  · rintro ⟨⟨h1, -, h3⟩, h4⟩
    exact ⟨h1, h4, h3⟩
  · rintro ⟨h1, h2, h3⟩
    exact ⟨⟨h1, h2.rest, h3⟩, h2⟩

theorem token_eq_none {kind : TokenKind} {c : Cursor}
    (h : ∀ text after, kind.IsText text → c.Takes text after → False) :
    standard.token kind c = none := by
  cases ht : standard.token kind c with
  | none => rfl
  | some found =>
    obtain ⟨htext, htakes, -⟩ := token_iff.mp ht
    exact (h _ _ htext htakes).elim

/-- No token stands where the text starts with no character that the kind can start with. -/
theorem token_eq_none_of_head {kind : TokenKind} {c : Cursor} (p : Char → Bool)
    (hp : ∀ text, kind.IsText text → headIs p text) (h : headIs p c.rest = false) :
    standard.token kind c = none := by
  refine token_eq_none fun text after htext htakes => ?_
  rw [htakes.rest, headIs_append_of_ne_nil htext.ne_nil, hp text htext] at h
  exact absurd h (by simp)

theorem expect_eq_ok_iff {lexicon : Lexicon} {kind : TokenKind} {expected : Expectation}
    {c after : Cursor} : lexicon.expect kind expected c = .ok after ↔
      ∃ text, lexicon.token kind c = some (text, after) := by
  unfold expect
  split
  · next text' after' h => simp [h]
  · next h => simp [h]

theorem headed_of_all {p : Char → Bool} {w : List Char} (hw : ∀ x ∈ w, p x) (hn : w ≠ []) :
    Headed p p w := by
  cases w with
  | nil => exact absurd rfl hn
  | cons c w => exact ⟨c, w, rfl, hw c (by simp), fun d hd => hw d (by simp [hd])⟩

theorem all_of_headed {p q : Char → Bool} {w : List Char} (h : Headed p q w)
    (hpq : ∀ c, p c → q c) : ∀ x ∈ w, q x := by
  obtain ⟨c, t, rfl, hc, ht⟩ := h
  exact List.forall_mem_cons.mpr ⟨hpq c hc, ht⟩

/-- White space is left out up to the first character that is none. -/
theorem skip_spaces_iff {c after : Cursor} : standard.skip .spaces c = after ↔
    ∃ w, (∀ x ∈ w, isSpace x) ∧ c.Takes w after ∧ headIs isSpace after.rest = false := by
  have hskip : ∀ w d, (∀ x ∈ w, isSpace x) → c.Takes w d → headIs isSpace d.rest = false →
      standard.skip .spaces c = d := by
    intro w d hw ht hd
    unfold skip
    cases hw' : w with
    | nil =>
      subst hw'
      obtain rfl := (Cursor.Takes.refl c).unique ht
      have hn : standard.token .spaces c = none := by
        apply token_eq_none_of_head isSpace _ hd
        rintro _ ⟨x, t, rfl, hx, -⟩
        exact hx
      rw [hn]
    | cons x t =>
      have hs : standard.token .spaces c = some (w, d) :=
        token_iff.mpr ⟨headed_of_all hw (by simp [hw']), ht, hd⟩
      rw [hs]
  constructor
  · rintro rfl
    obtain ⟨hs, hw, hd⟩ := (span_iff (p := isSpace) (s := c.rest)).mp ⟨rfl, rfl⟩
    refine ⟨_, hw, ?_, ?_⟩
    · rw [hskip _ _ hw (.advance c hs) hd]
      exact .advance c hs
    · rw [hskip _ _ hw (.advance c hs) hd]
      exact hd
  · rintro ⟨w, hw, ht, hd⟩
    exact hskip w after hw ht hd

/-- White space is left out up to a text that does not start with any. -/
theorem skip_spaces_of_text {w s : List Char} {c d e : Cursor} (hw : ∀ x ∈ w, isSpace x)
    (htw : c.Takes w d) (hts : d.Takes s e) (hn : s ≠ []) (hs : headIs isSpace s = false) :
    standard.skip .spaces c = d :=
  skip_spaces_iff.mpr ⟨w, hw, htw, by rw [hts.rest, headIs_append_of_ne_nil hn, hs]⟩

/-- A token of a kind that has a fixed end is not made longer by what follows. -/
theorem token_of_text (kind : TokenKind) (hkind : kind.goesOn = fun _ => false) {c d : Cursor}
    {s : List Char} (hs : kind.IsText s) (ht : c.Takes s d) :
    standard.token kind c = some (s, d) := by
  refine token_iff.mpr ⟨hs, ht, ?_⟩
  rw [hkind]
  cases d.rest <;> rfl

theorem expect_of_text (kind : TokenKind) (hkind : kind.goesOn = fun _ => false) {c d : Cursor}
    {s : List Char} (hs : kind.IsText s) (ht : c.Takes s d) (expected : Expectation) :
    standard.expect kind expected c = .ok d :=
  expect_eq_ok_iff.mpr ⟨s, token_of_text kind hkind hs ht⟩

end Lexicon

/-- A place of a text. -/
def Cursor.In (input : List Char) (c : Cursor) : Prop :=
  ∃ before, (⟨0, input⟩ : Cursor).Takes before c

namespace Cursor.In

variable {input : List Char} {c d : Cursor}

theorem start (text : String) : (Cursor.start text).In text.toList := ⟨[], .refl _⟩

theorem take {s : List Char} (h : c.In input) (ht : c.Takes s d) : d.In input := by
  obtain ⟨before, hbefore⟩ := h
  exact ⟨before ++ s, hbefore.trans ht⟩

theorem token {lexicon : Lexicon} {kind : TokenKind} {text : List Char} (h : c.In input)
    (htoken : lexicon.token kind c = some (text, d)) : d.In input :=
  h.take (Lexicon.token_eq_some_iff.mp htoken).2

theorem skip {lexicon : Lexicon} (h : c.In input) (kind : TokenKind) :
    (lexicon.skip kind c).In input := by
  unfold Lexicon.skip
  cases htoken : lexicon.token kind c with
  | none => exact h
  | some found => exact h.token htoken

end Cursor.In

end SelectorPath
