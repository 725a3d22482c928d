import SelectorPath.Proofs.Checked.Program

/-!
Places in bytes and cursors. `BytePlace.At` says that both stand for the same place of a text; the
text after it is then a part that can be cut out, so tokens, and loops whose items go on, are read
alike on both sides.
-/

namespace SelectorPath

open Text Lexicon Checked

/-- The matchers of the standard lexicon by the numbers of their kinds. -/
def Lexicon.table : List Matcher := TokenKind.all.map standard

theorem Lexicon.get_table (kind : TokenKind) : get table kind.ctorIdx = .done (standard kind) := by
  cases kind <;> rfl

namespace BytePlace

/-! ## Places -/

/-- A place in bytes and a cursor stand for the same place of a text. -/
structure At (p : BytePlace) (c : Cursor) : Prop where
  offset : p.offset = c.offset
  place : c.In p.source.toList

namespace At

variable {p : BytePlace} {c d : Cursor}

theorem start (text : String) : (BytePlace.start text).At (.start text) := ⟨rfl, .start text⟩

/-- The text before and after a place. -/
theorem source (h : p.At c) :
    ∃ before, p.source = String.ofList (before ++ c.rest) ∧ p.offset = byteLength before := by
  obtain ⟨before, hbefore⟩ := h.place
  refine ⟨before, ?_, ?_⟩
  · have hrest : p.source.toList = before ++ c.rest := hbefore.rest
    rw [← hrest, String.ofList_toList]
  · rw [h.offset, hbefore.offset, Nat.zero_add]

theorem size (h : p.At c) : p.source.utf8ByteSize = p.offset + byteLength c.rest := by
  obtain ⟨before, hsource, hoffset⟩ := h.source
  rw [hsource, utf8ByteSize_ofList, byteLength_append, hoffset]

theorem rest (h : p.At c) : p.rest = .done (String.ofList c.rest) := by
  obtain ⟨before, hsource, hoffset⟩ := h.source
  rw [BytePlace.rest, hoffset, hsource, slice_suffix]

theorem left (h : p.At c) : p.left = byteLength c.rest := by
  rw [BytePlace.left, h.size, Nat.add_sub_cancel_left]

theorem atEnd (h : p.At c) : p.atEnd = c.atEnd := by
  rw [BytePlace.atEnd, h.size, Cursor.atEnd]
  cases hrest : c.rest with
  | nil => simp [byteLength]
  | cons x s =>
    have hpos : 0 < byteLength (x :: s) := byteLength_pos (by simp)
    simp only [beq_eq_false_iff_ne, List.isEmpty_cons]
    omega

/-- Going on by the length of a part of the text. -/
theorem advance {s : List Char} (h : p.At c) (ht : c.Takes s d) :
    ∃ q, p.advance (byteLength s) = .done q ∧ q.At d ∧ q.offset = p.offset + byteLength s := by
  have hsize : p.offset + byteLength s ≤ p.source.utf8ByteSize := by
    rw [h.size, ht.rest, byteLength_append]
    omega
  refine ⟨⟨p.source, p.offset + byteLength s⟩, ?_, ⟨?_, h.place.take ht⟩, rfl⟩
  · rw [BytePlace.advance, add, if_pos hsize]
    rfl
  · rw [ht.offset, ← h.offset]

theorem left_lt {q : BytePlace} {s : List Char} (h : p.At c) (hq : q.At d) (ht : c.Takes s d)
    (hs : s ≠ []) : q.left < p.left := by
  have hpos := byteLength_pos hs
  rw [hq.left, h.left, ht.rest, byteLength_append]
  omega

/-! ## Tokens -/

theorem token_none {kind : TokenKind} (h : p.At c) (htoken : standard.token kind c = none) :
    p.token table kind = .done none := by
  have hrun : (standard kind).run c.rest = none := Option.map_eq_none_iff.mp htoken
  simp [token, h.rest, get_table, Matcher.length?, hrun]

theorem token_some {kind : TokenKind} {text : List Char} (h : p.At c)
    (htoken : standard.token kind c = some (text, d)) :
    ∃ q, p.token table kind = .done (some (String.ofList text, q)) ∧ q.At d := by
  obtain ⟨hrun, ht⟩ := token_eq_some_iff.mp htoken
  obtain ⟨q, hadvance, hq, -⟩ := h.advance ht
  have hslice : slice (String.ofList c.rest) 0 (byteLength text) = .done (String.ofList text) := by
    rw [ht.rest, slice_prefix]
  exact ⟨q, by simp [token, h.rest, get_table, Matcher.length?, hrun, hslice, hadvance], hq⟩

theorem peek (h : p.At c) (kind : TokenKind) :
    p.peek table kind = .done (standard.peek kind c) := by
  cases htoken : standard.token kind c with
  | none => simp [BytePlace.peek, Lexicon.peek, h.token_none htoken, htoken]
  | some found =>
    obtain ⟨q, htext, -⟩ := h.token_some htoken
    simp [BytePlace.peek, Lexicon.peek, htext, htoken]

theorem skip (h : p.At c) (kind : TokenKind) :
    ∃ q, p.skip table kind = .done q ∧ q.At (standard.skip kind c) := by
  cases htoken : standard.token kind c with
  | none => exact ⟨p, by simp [BytePlace.skip, h.token_none htoken], by simpa [Lexicon.skip, htoken]⟩
  | some found =>
    obtain ⟨q, htext, hq⟩ := h.token_some htoken
    exact ⟨q, by simp [BytePlace.skip, htext], by simpa [Lexicon.skip, htoken] using hq⟩

theorem expect (h : p.At c) (kind : TokenKind) (expected : Expectation) :
    Agrees At (p.expect table kind expected) (standard.expect kind expected c) := by
  unfold Lexicon.expect BytePlace.expect
  cases htoken : standard.token kind c with
  | none =>
    rw [h.token_none htoken, done_bind, h.offset]
    rfl
  | some found =>
    obtain ⟨q, htext, hq⟩ := h.token_some htoken
    rw [htext]
    exact hq

end At

/-- The same result, and the same place after it. -/
def Reads {α : Type} (a : α × BytePlace) (b : α × Cursor) : Prop := a.1 = b.1 ∧ a.2.At b.2

/-! ## Loops -/

theorem readWhile_agrees {α : Type} {item : BytePlace → Checked (Option (α × BytePlace))}
    {item' : Cursor → Except SelectorError (Option (α × Cursor))}
    (hitem : ∀ p c, p.At c → Agrees (Option.Rel Reads) (item p) (item' c))
    (hmoves : ∀ c a d, item' c = .ok (some (a, d)) → ∃ s, s ≠ [] ∧ c.Takes s d)
    {p : BytePlace} {c : Cursor} (h : p.At c) :
    Agrees Reads (p.readWhile item) (c.readWhile item') := by
  induction hn : c.rest.length using Nat.strongRecOn generalizing p c with
  | ind n ih =>
  have hfirst := hitem p c h
  rw [readWhile, Cursor.readWhile]
  cases hc : item' c with
  | error e =>
    rw [hc, agrees_error_iff] at hfirst
    rw [hfirst]
    rfl
  | ok found =>
    rw [hc] at hfirst
    obtain ⟨found', hfound, hrel⟩ := agrees_ok_iff.mp hfirst
    rw [hfound]
    cases hrel with
    | none => exact ⟨rfl, h⟩
    | @some a b hab =>
      obtain ⟨a, q⟩ := a
      obtain ⟨a', d⟩ := b
      obtain ⟨rfl, hq⟩ := hab
      obtain ⟨s, hs, ht⟩ := hmoves c a d hc
      have hlt := ht.length_lt hs
      have hrest := ih _ (hn ▸ hlt) hq rfl
      simp only
      rw [if_pos (h.left_lt hq ht hs), if_pos hlt]
      cases hloop : d.readWhile item' with
      | error e =>
        rw [hloop, agrees_error_iff] at hrest
        rw [hrest]
        rfl
      | ok result =>
        rw [hloop] at hrest
        obtain ⟨⟨items, last⟩, hitems, rfl, hlast⟩ := agrees_ok_iff.mp hrest
        rw [hitems]
        exact ⟨by rw [h.offset], hlast⟩

theorem readSeparated_agrees {α : Type} {separator : BytePlace → Checked (Option BytePlace)}
    {separator' : Cursor → Option Cursor} {item : BytePlace → Checked (α × BytePlace)}
    {item' : Reader α}
    (hseparator : ∀ p c, p.At c → Agrees (Option.Rel At) (separator p) (.ok (separator' c)))
    (hitem : ∀ p c, p.At c → Agrees Reads (item p) (item' c))
    (hmoves : ∀ c a d e, item' c = .ok (a, d) → separator' d = some e → ∃ s, s ≠ [] ∧ c.Takes s e)
    {p : BytePlace} {c : Cursor} (h : p.At c) :
    Agrees Reads (p.readSeparated separator item) (c.readSeparated separator' item') := by
  induction hn : c.rest.length using Nat.strongRecOn generalizing p c with
  | ind n ih =>
  have hfirst := hitem p c h
  rw [readSeparated, Cursor.readSeparated]
  cases hc : item' c with
  | error e =>
    rw [hc, agrees_error_iff] at hfirst
    rw [hfirst]
    rfl
  | ok found =>
    rw [hc] at hfirst
    obtain ⟨⟨a, q⟩, hfound, rfl, hq⟩ := agrees_ok_iff.mp hfirst
    obtain ⟨after, hafter, hrel⟩ := agrees_ok_iff.mp (hseparator q found.2 hq)
    rw [hfound]
    simp only [hafter]
    cases hd : separator' found.2 with
    | none =>
      rw [hd] at hrel
      cases hrel
      exact ⟨rfl, hq⟩
    | some d =>
      rw [hd] at hrel
      cases hrel with
      | @some r _ hr =>
      obtain ⟨s, hs, ht⟩ := hmoves c found.1 found.2 d hc hd
      have hlt := ht.length_lt hs
      have hrest := ih _ (hn ▸ hlt) hr rfl
      simp only
      rw [if_pos (h.left_lt hr ht hs), if_pos hlt]
      cases hloop : d.readSeparated separator' item' with
      | error e =>
        rw [hloop, agrees_error_iff] at hrest
        rw [hrest]
        rfl
      | ok result =>
        rw [hloop] at hrest
        obtain ⟨⟨items, last⟩, hitems, rfl, hlast⟩ := agrees_ok_iff.mp hrest
        rw [hitems]
        exact ⟨rfl, hlast⟩

end BytePlace

end SelectorPath
