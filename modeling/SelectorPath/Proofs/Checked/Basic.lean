import SelectorPath.Proofs.Token.Place

/-!
Computations that check what they do: parts of texts are cut at byte positions, which have to lie
between two characters, and numbers have a greatest value. A step that cannot be taken ends the
computation in a panic, which is no error of the notation. `Agrees` relates such a computation to
one that checks nothing; it never panics.
-/

namespace SelectorPath

open Text

/-- Why a computation cannot go on. -/
inductive Panic where
  /-- A part of a text was cut outside of it or inside a character. -/
  | slice
  /-- An entry was taken that a list does not have. -/
  | index
  /-- A number got too great or too small. -/
  | overflow
  /-- A branch was reached that should not be. -/
  | unreachable
  /-- A loop did not move on. -/
  | stalled
  deriving DecidableEq, Repr

/-- The outcome of a computation that checks its steps. -/
inductive Checked (α : Type) where
  | done (a : α)
  | failed (e : SelectorError)
  | panicked (panic : Panic)

namespace Checked

protected def bind {α β : Type} : Checked α → (α → Checked β) → Checked β
  | .done a, f => f a
  | .failed e, _ => .failed e
  | .panicked panic, _ => .panicked panic

instance : Monad Checked where
  pure := .done
  bind := Checked.bind

section Bind

variable {α β : Type}

@[simp] theorem done_bind (a : α) (f : α → Checked β) : (Checked.done a >>= f) = f a := rfl

@[simp] theorem failed_bind (e : SelectorError) (f : α → Checked β) :
    (Checked.failed e >>= f) = .failed e := rfl

@[simp] theorem pure_eq (a : α) : (pure a : Checked α) = .done a := rfl

end Bind

/-- The outcome of a computation that has nothing to check. -/
def ofExcept {α : Type} : Except SelectorError α → Checked α
  | .ok a => .done a
  | .error e => .failed e

theorem ofExcept_ne_panicked {α : Type} (y : Except SelectorError α) (panic : Panic) :
    ofExcept y ≠ .panicked panic := by
  cases y <;> simp [ofExcept]

/-! ## Steps that are checked -/

/-- The part of a text between two byte positions. -/
def slice (s : String) (first last : Nat) : Checked String :=
  if h : first ≤ last ∧ (⟨first⟩ : String.Pos.Raw).IsValid s ∧ (⟨last⟩ : String.Pos.Raw).IsValid s
  then .done (s.extract (s.pos ⟨first⟩ h.2.1) (s.pos ⟨last⟩ h.2.2))
  else .panicked .slice

def get {α : Type} (entries : List α) (index : Nat) : Checked α :=
  match entries[index]? with
  | some a => .done a
  | none => .panicked .index

/-- A sum that is at most `greatest`. What is counted here are bytes or characters of a text, and the
length of a text is always a number that can be stored. -/
def add (greatest a b : Nat) : Checked Nat :=
  if a + b ≤ greatest then .done (a + b) else .panicked .overflow

def sub (a b : Nat) : Checked Nat := if b ≤ a then .done (a - b) else .panicked .overflow

def negate (n : Int64) : Checked Int64 :=
  if n = Int64.minValue then .panicked .overflow else .done (-n)

/-! ## Parts of texts -/

theorem size_utf8Encode (s : List Char) : s.utf8Encode.size = byteLength s := by
  induction s with
  | nil => rfl
  | cons c s ih =>
    rw [List.utf8Encode_cons, ByteArray.size_append, ih, List.utf8Encode_singleton,
      List.size_toByteArray, String.length_utf8EncodeChar, byteLength]

theorem utf8ByteSize_ofList (s : List Char) : (String.ofList s).utf8ByteSize = byteLength s := by
  rw [← String.size_toByteArray, String.toByteArray_ofList, size_utf8Encode]

theorem byteLength_pos {s : List Char} (h : s ≠ []) : 0 < byteLength s := by
  cases s with
  | nil => exact absurd rfl h
  | cons c s =>
    have hc := c.utf8Size_pos
    rw [byteLength]
    omega

theorem byteLength_toList (s : String) : byteLength s.toList = s.utf8ByteSize := by
  rw [← utf8ByteSize_ofList, String.ofList_toList]

/-- The end of a first part lies between two characters. -/
theorem isValid_byteLength (s t : List Char) :
    (⟨byteLength s⟩ : String.Pos.Raw).IsValid (String.ofList (s ++ t)) := by
  rw [String.Pos.Raw.isValid_iff_exists_append]
  refine ⟨String.ofList s, String.ofList t, String.ofList_append, ?_⟩
  rw [String.Pos.Raw.ext_iff, String.byteIdx_rawEndPos, utf8ByteSize_ofList]

/-- Cutting out the part of a text that stands between two others. -/
theorem slice_append (s t u : List Char) {first last : Nat} (hfirst : first = byteLength s)
    (hlast : last = byteLength s + byteLength t) :
    slice (String.ofList (s ++ t ++ u)) first last = .done (String.ofList t) := by
  have hs : (⟨first⟩ : String.Pos.Raw).IsValid (String.ofList (s ++ t ++ u)) := by
    rw [hfirst, List.append_assoc]
    exact isValid_byteLength s (t ++ u)
  have ht : (⟨last⟩ : String.Pos.Raw).IsValid (String.ofList (s ++ t ++ u)) := by
    rw [hlast, ← byteLength_append]
    exact isValid_byteLength (s ++ t) u
  rw [slice, dif_pos ⟨by omega, hs, ht⟩]
  congr 1
  rw [← String.toByteArray_inj, String.toByteArray_extract, String.toByteArray_ofList,
    String.toByteArray_ofList, List.utf8Encode_append, List.utf8Encode_append,
    ByteArray.append_assoc]
  change ByteArray.extract _ first last = _
  have hoffset : first = byteLength s + 0 := hfirst
  rw [hoffset, hlast, ByteArray.extract_append_size_add' (size_utf8Encode s).symm]
  exact ByteArray.extract_append_eq_left (size_utf8Encode t).symm

/-- A character of two bytes cannot be cut. -/
example : slice "é" 0 1 = .panicked .slice := by cbv

/-- Cutting off a first part. -/
theorem slice_prefix (s t : List Char) :
    slice (String.ofList (s ++ t)) 0 (byteLength s) = .done (String.ofList s) :=
  slice_append [] s t rfl (Nat.zero_add _).symm

/-- Cutting off all but a first part. -/
theorem slice_suffix (s t : List Char) :
    slice (String.ofList (s ++ t)) (byteLength s) (String.ofList (s ++ t)).utf8ByteSize =
      .done (String.ofList t) := by
  have hsize : (String.ofList (s ++ t)).utf8ByteSize = byteLength s + byteLength t := by
    rw [utf8ByteSize_ofList, byteLength_append]
  have hslice := slice_append s t [] rfl hsize
  rwa [List.append_nil] at hslice

/-! ## Agreement -/

/-- A computation that checks its steps ends like one that checks nothing, with related results. -/
def Agrees {α β : Type} (R : α → β → Prop) : Checked α → Except SelectorError β → Prop
  | .done a, .ok b => R a b
  | .failed e, .error e' => e = e'
  | _, _ => False

section Agrees

variable {α β γ δ : Type} {R : α → β → Prop} {S : γ → δ → Prop}

theorem agrees_error_iff {x : Checked α} {e : SelectorError} :
    Agrees R x (.error e) ↔ x = .failed e := by
  cases x <;> simp [Agrees]

theorem agrees_ok_iff {x : Checked α} {b : β} : Agrees R x (.ok b) ↔ ∃ a, x = .done a ∧ R a b := by
  cases x <;> simp [Agrees]

theorem Agrees.bind {x : Checked α} {y : Except SelectorError β} {f : α → Checked γ}
    {g : β → Except SelectorError δ} (h : Agrees R x y)
    (hfg : ∀ a b, R a b → Agrees S (f a) (g b)) : Agrees S (x >>= f) (y >>= g) := by
  cases y with
  | error e =>
    rw [agrees_error_iff.mp h]
    exact agrees_error_iff.mpr rfl
  | ok b =>
    obtain ⟨a, rfl, hab⟩ := agrees_ok_iff.mp h
    exact hfg a b hab

/-- A result on the other side that is changed afterwards. -/
theorem Agrees.bind_map {x : Checked α} {y : Except SelectorError β} {f : α → Checked γ}
    {g : β → δ} (h : Agrees R x y) (hfg : ∀ a b, R a b → Agrees S (f a) (.ok (g b))) :
    Agrees S (x >>= f) (y.map g) := by
  cases y with
  | error e =>
    rw [agrees_error_iff.mp h]
    exact agrees_error_iff.mpr rfl
  | ok b =>
    obtain ⟨a, rfl, hab⟩ := agrees_ok_iff.mp h
    exact hfg a b hab

/-- A computation that has nothing to check agrees with itself. -/
theorem agrees_ofExcept (y : Except SelectorError α) : Agrees Eq (ofExcept y) y := by
  cases y <;> rfl

theorem Agrees.eq_ofExcept {x : Checked α} {y : Except SelectorError α} (h : Agrees Eq x y) :
    x = ofExcept y := by
  cases y with
  | error e => exact agrees_error_iff.mp h
  | ok b =>
    obtain ⟨a, rfl, rfl⟩ := agrees_ok_iff.mp h
    rfl

end Agrees

end Checked

end SelectorPath
