import SelectorPath.Proofs.Checked.Basic

/-!
Loops that read at a cursor. The order of the places of a text (`Cursor.Before`) bounds the rounds
of a loop each of which takes something of the text: there are at most as many as there are bytes
left (`Cursor.After.left_le`), and the loop ends where no item starts or one fails, not for want of
progress (`Cursor.whileEnds`, `Cursor.separatedEnds`).
-/

namespace SelectorPath

open Text

namespace Cursor

/-! ## Places -/

/-- The number of bytes after a place. -/
def left (c : Cursor) : Nat := byteLength c.rest

/-- A place is another one of the same text or stands before it. -/
def NotAfter (c d : Cursor) : Prop := ∃ s, c.Takes s d

/-- A place stands before another one of the same text. -/
def Before (c d : Cursor) : Prop := ∃ s, s ≠ [] ∧ c.Takes s d

section Places

variable {c d e : Cursor}

theorem NotAfter.refl (c : Cursor) : c.NotAfter c := ⟨[], .refl c⟩

theorem NotAfter.trans (h : c.NotAfter d) (h' : d.NotAfter e) : c.NotAfter e := by
  obtain ⟨s, hs⟩ := h
  obtain ⟨t, ht⟩ := h'
  exact ⟨s ++ t, hs.trans ht⟩

theorem Before.notAfter (h : c.Before d) : c.NotAfter d := by
  obtain ⟨s, -, hs⟩ := h
  exact ⟨s, hs⟩

theorem Before.trans_notAfter (h : c.Before d) (h' : d.NotAfter e) : c.Before e := by
  obtain ⟨s, hne, hs⟩ := h
  obtain ⟨t, ht⟩ := h'
  exact ⟨s ++ t, List.append_ne_nil_of_left_ne_nil hne t, hs.trans ht⟩

theorem NotAfter.trans_before (h : c.NotAfter d) (h' : d.Before e) : c.Before e := by
  obtain ⟨s, hs⟩ := h
  obtain ⟨t, hne, ht⟩ := h'
  exact ⟨s ++ t, List.append_ne_nil_of_right_ne_nil s hne, hs.trans ht⟩

theorem Takes.left_eq {s : List Char} (h : c.Takes s d) : c.left = byteLength s + d.left := by
  rw [left, left, h.rest, byteLength_append]

theorem NotAfter.left_le (h : c.NotAfter d) : d.left ≤ c.left := by
  obtain ⟨s, hs⟩ := h
  have hleft := hs.left_eq
  omega

theorem Before.left_lt (h : c.Before d) : d.left < c.left := by
  obtain ⟨s, hne, hs⟩ := h
  have hpos := Checked.byteLength_pos hne
  have hleft := hs.left_eq
  omega

/-- Of two places, the one with fewer bytes left stands behind. -/
theorem NotAfter.before_of_left_lt (h : c.NotAfter d) (hlt : d.left < c.left) : c.Before d := by
  obtain ⟨s, hs⟩ := h
  refine ⟨s, ?_, hs⟩
  rintro rfl
  have hrest : c.rest = d.rest := hs.rest
  rw [left, left, hrest] at hlt
  omega

theorem Before.length_lt (h : c.Before d) : d.rest.length < c.rest.length := by
  obtain ⟨s, hne, hs⟩ := h
  exact hs.length_lt hne

end Places

/-! ## Rounds -/

/-- The place where a loop stands after `n` rounds. -/
inductive After (round : Cursor → Cursor → Prop) : Nat → Cursor → Cursor → Prop
  | start (c : Cursor) : After round 0 c c
  | next {n : Nat} {c d e : Cursor} : round c d → After round n d e → After round (n + 1) c e

section Rounds

variable {round : Cursor → Cursor → Prop} {n : Nat} {c d : Cursor}

theorem After.notAfter (hround : ∀ c d, round c d → c.Before d) (h : After round n c d) :
    c.NotAfter d := by
  induction h with
  | start c => exact .refl c
  | next hfirst _ ih => exact (hround _ _ hfirst).notAfter.trans ih

/-- Each round takes at least one byte. -/
theorem After.left_le (hround : ∀ c d, round c d → c.Before d) (h : After round n c d) :
    n + d.left ≤ c.left := by
  induction h with
  | start c => omega
  | next hfirst _ ih =>
    have hlt := (hround _ _ hfirst).left_lt
    omega

end Rounds

variable {α : Type}

/-! ## Loops that go on while there are items -/

/-- A round leads behind an item. The last pass of a loop, which finds none, is not a round. -/
def WhileRound (item : Cursor → Except SelectorError (Option (α × Cursor))) (c d : Cursor) : Prop :=
  ∃ a, item c = .ok (some (a, d))

/-- A loop makes at most as many rounds as there are bytes left, and it ends where there is no item
or where one fails. -/
structure WhileEnds (item : Cursor → Except SelectorError (Option (α × Cursor))) (c : Cursor) :
    Prop where
  rounds : ∀ n d, After (WhileRound item) n c d → n ≤ c.left
  read : ∀ items d, c.readWhile item = .ok (items, d) →
    After (WhileRound item) items.length c d ∧ item d = .ok none
  failed : ∀ e, c.readWhile item = .error e →
    ∃ n d, After (WhileRound item) n c d ∧ item d = .error e

section While

variable {item : Cursor → Except SelectorError (Option (α × Cursor))}

theorem readWhile_ends (hround : ∀ c d, WhileRound item c d → c.Before d) (c : Cursor) :
    (∀ items d, c.readWhile item = .ok (items, d) →
      After (WhileRound item) items.length c d ∧ item d = .ok none) ∧
    ∀ e, c.readWhile item = .error e →
      ∃ n d, After (WhileRound item) n c d ∧ item d = .error e := by
  fun_induction c.readWhile item with
  | case1 c e hitem =>
    refine ⟨by simp, fun e' he => ?_⟩
    cases he
    exact ⟨0, c, .start c, hitem⟩
  | case2 c hitem =>
    refine ⟨fun items d h => ?_, by simp⟩
    cases h
    exact ⟨.start c, hitem⟩
  | case3 c a after hitem hlt e hrest ih =>
    refine ⟨by simp, fun e' he => ?_⟩
    cases he
    obtain ⟨n, d, hafter, hd⟩ := ih.2 e hrest
    exact ⟨n + 1, d, .next ⟨a, hitem⟩ hafter, hd⟩
  | case4 c a after hitem hlt rest last hrest ih =>
    refine ⟨fun items d h => ?_, by simp⟩
    cases h
    obtain ⟨hafter, hd⟩ := ih.1 rest last hrest
    exact ⟨.next ⟨a, hitem⟩ hafter, hd⟩
  | case5 c a after hitem hlt => exact absurd (hround c after ⟨a, hitem⟩).length_lt hlt

theorem whileEnds (hround : ∀ c d, WhileRound item c d → c.Before d) (c : Cursor) :
    c.WhileEnds item where
  rounds n d h := by
    have hle := h.left_le hround
    omega
  read := (readWhile_ends hround c).1
  failed := (readWhile_ends hround c).2

/-- Items that are the same wherever the loop comes to are read alike. -/
theorem readWhile_congr {item' : Cursor → Except SelectorError (Option (α × Cursor))}
    {c : Cursor} (h : ∀ n d, After (WhileRound item) n c d → item d = item' d) :
    c.readWhile item = c.readWhile item' := by
  fun_induction c.readWhile item with
  | case1 c e hitem => rw [readWhile, ← h 0 c (.start c), hitem]
  | case2 c hitem => rw [readWhile, ← h 0 c (.start c), hitem]
  | case3 c a after hitem hlt e hrest ih =>
    have hloop := ih fun n d hd => h (n + 1) d (.next ⟨a, hitem⟩ hd)
    rw [readWhile.eq_def item' c, ← h 0 c (.start c), hitem]
    simp only [if_pos hlt, ← hloop, hrest]
  | case4 c a after hitem hlt rest last hrest ih =>
    have hloop := ih fun n d hd => h (n + 1) d (.next ⟨a, hitem⟩ hd)
    rw [readWhile.eq_def item' c, ← h 0 c (.start c), hitem]
    simp only [if_pos hlt, ← hloop, hrest]
  | case5 c a after hitem hlt =>
    rw [readWhile.eq_def item' c, ← h 0 c (.start c), hitem]
    simp only [if_neg hlt]

end While

/-! ## Loops over items with separators between them -/

/-- A round leads behind an item and the separator after it. The last pass of a loop, after whose
item there is no separator, is not a round. -/
def SeparatedRound (separator : Cursor → Option Cursor) (item : Reader α) (c e : Cursor) : Prop :=
  ∃ a d, item c = .ok (a, d) ∧ separator d = some e

/-- A loop makes at most as many rounds as there are bytes left. One more pass ends it, behind an
item after which there is no separator, or where an item fails; so there is one item more than there
are rounds. -/
structure SeparatedEnds (separator : Cursor → Option Cursor) (item : Reader α) (c : Cursor) :
    Prop where
  rounds : ∀ n d, After (SeparatedRound separator item) n c d → n ≤ c.left
  read : ∀ items d, c.readSeparated separator item = .ok (items, d) → ∃ n last a,
    items.length = n + 1 ∧ After (SeparatedRound separator item) n c last ∧
      item last = .ok (a, d) ∧ separator d = none
  failed : ∀ e, c.readSeparated separator item = .error e →
    ∃ n d, After (SeparatedRound separator item) n c d ∧ item d = .error e

section Separated

variable {separator : Cursor → Option Cursor} {item : Reader α}

theorem readSeparated_ends (hround : ∀ c d, SeparatedRound separator item c d → c.Before d)
    (c : Cursor) :
    (∀ items d, c.readSeparated separator item = .ok (items, d) → ∃ n last a,
      items.length = n + 1 ∧ After (SeparatedRound separator item) n c last ∧
        item last = .ok (a, d) ∧ separator d = none) ∧
    ∀ e, c.readSeparated separator item = .error e →
      ∃ n d, After (SeparatedRound separator item) n c d ∧ item d = .error e := by
  fun_induction c.readSeparated separator item with
  | case1 c e hitem =>
    refine ⟨by simp, fun e' he => ?_⟩
    cases he
    exact ⟨0, c, .start c, hitem⟩
  | case2 c a after hitem hnone =>
    refine ⟨fun items d h => ?_, by simp⟩
    cases h
    exact ⟨0, c, a, rfl, .start c, hitem, hnone⟩
  | case3 c a after hitem next hnext hlt e hrest ih =>
    refine ⟨by simp, fun e' he => ?_⟩
    cases he
    obtain ⟨n, d, hafter, hd⟩ := ih.2 e hrest
    exact ⟨n + 1, d, .next ⟨a, after, hitem, hnext⟩ hafter, hd⟩
  | case4 c a after hitem next hnext hlt rest last hrest ih =>
    refine ⟨fun items d h => ?_, by simp⟩
    cases h
    obtain ⟨n, final, b, hlength, hafter, hfinal, hnone⟩ := ih.1 rest last hrest
    refine ⟨n + 1, final, b, ?_, .next ⟨a, after, hitem, hnext⟩ hafter, hfinal, hnone⟩
    rw [List.length_cons, hlength]
  | case5 c a after hitem next hnext hlt =>
    exact absurd (hround c next ⟨a, after, hitem, hnext⟩).length_lt hlt

theorem separatedEnds (hround : ∀ c d, SeparatedRound separator item c d → c.Before d)
    (c : Cursor) : c.SeparatedEnds separator item where
  rounds n d h := by
    have hle := h.left_le hround
    omega
  read := (readSeparated_ends hround c).1
  failed := (readSeparated_ends hround c).2

end Separated

end Cursor

end SelectorPath
