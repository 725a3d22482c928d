import SelectorPath.Json.Basic
import SelectorPath.Selector.Quoted
import SelectorPath.Proofs.XPath.Parsing

/-!
The grammar of JSON texts, for the documents whose numbers are integers and that hold no truth
values. It admits every spelling of a document: blanks between any two tokens, either case of a
hexadecimal digit, an escape where none is needed, a character outside the first plane as two
escapes. The main statement is that a text is a text of at most one document
(`DocumentText.unique`).
-/

namespace SelectorPath.Json

open Text
open Quoted (hexValue?)
open XPath.Syntax (isNumeral)

/-! ## Blanks -/

/-- The blanks between tokens, which are those of XML. -/
def Gap (s : List Char) : Prop := ∀ c ∈ s, isXmlSpace c

/-- Where a gap ends is told by what follows it. -/
theorem Gap.unique {v v' s s' : List Char} (hv : Gap v) (hv' : Gap v')
    (h : v ++ s = v' ++ s') (hs : headIs isXmlSpace s = false)
    (hs' : headIs isXmlSpace s' = false) : s = s' :=
  (run_unique h hv hv' hs hs').2

/-! ## Strings -/

/-- The characters that have an escape of one letter. -/
def shortEscape? : Char → Option Char
  | '"' => some '"'
  | '\\' => some '\\'
  | '/' => some '/'
  | 'b' => some '\x08'
  | 'f' => some '\x0c'
  | 'n' => some '\n'
  | 'r' => some '\r'
  | 't' => some '\t'
  | _ => none

/-- The value of four hexadecimal digits. -/
def hexQuad? (a b c d : Char) : Option Nat := do
  some ((((← hexValue? a) * 16 + (← hexValue? b)) * 16 + (← hexValue? c)) * 16 + (← hexValue? d))

/-- The spellings of one character of a string. -/
inductive CharText : List Char → Char → Prop
  | plain {c : Char} (hcontrol : 0x20 ≤ c.toNat) (hquote : c ≠ '"') (hback : c ≠ '\\') :
    CharText [c] c
  | short {e c : Char} (h : shortEscape? e = some c) : CharText ['\\', e] c
  | unicode {x₁ x₂ x₃ x₄ : Char} {n : Nat} (hn : hexQuad? x₁ x₂ x₃ x₄ = some n)
      (hvalid : n < 0xd800 ∨ 0xe000 ≤ n) :
    CharText ['\\', 'u', x₁, x₂, x₃, x₄] (Char.ofNat n)
  | surrogates {x₁ x₂ x₃ x₄ y₁ y₂ y₃ y₄ : Char} {high low : Nat}
      (hhigh : hexQuad? x₁ x₂ x₃ x₄ = some high) (hlow : hexQuad? y₁ y₂ y₃ y₄ = some low)
      (hhighs : 0xd800 ≤ high ∧ high < 0xdc00) (hlows : 0xdc00 ≤ low ∧ low < 0xe000) :
    CharText ['\\', 'u', x₁, x₂, x₃, x₄, '\\', 'u', y₁, y₂, y₃, y₄]
      (Char.ofNat (0x10000 + (high - 0xd800) * 0x400 + (low - 0xdc00)))

/-- The spellings of the characters of a string. -/
inductive CharsText : List Char → List Char → Prop
  | nil : CharsText [] []
  | cons {s t text : List Char} {c : Char} (hchar : CharText s c) (hrest : CharsText t text) :
    CharsText (s ++ t) (c :: text)

inductive StringText : List Char → String → Prop
  | mk {s : List Char} {text : String} (h : CharsText s text.toList) :
    StringText ('"' :: (s ++ ['"'])) text

/-! ## Numbers -/

/-- Digits without a leading zero. -/
structure DigitsText (s : List Char) (n : Nat) : Prop where
  numerals : ∀ c ∈ s, isNumeral c
  value : natural? s = some n
  noLeadingZero : s.head? = some '0' → s = ['0']

inductive NumberText : List Char → Int → Prop
  | unsigned {s : List Char} {n : Nat} (h : DigitsText s n) : NumberText s n
  | negative {s : List Char} {n : Nat} (h : DigitsText s n) : NumberText ('-' :: s) (-n)

/-! ## Documents -/

/-- One or more parts with commas between them and blanks around each. -/
inductive PartsText {α : Type} (Part : List Char → α → Prop) : List Char → List α → Prop
  | last {v s w : List Char} {a : α} (hv : Gap v) (ha : Part s a) (hw : Gap w) :
    PartsText Part (v ++ (s ++ w)) [a]
  | cons {v s w t : List Char} {a : α} {parts : List α} (hv : Gap v) (ha : Part s a) (hw : Gap w)
      (hparts : PartsText Part t parts) :
    PartsText Part (v ++ (s ++ (w ++ ',' :: t))) (a :: parts)

/-- The text between two brackets. -/
inductive ListText {α : Type} (Part : List Char → α → Prop) : List Char → List α → Prop
  | empty {v : List Char} (hv : Gap v) : ListText Part v []
  | parts {parts : List α} {s : List Char} (h : PartsText Part s parts) : ListText Part s parts

mutual

/-- The texts of a document without blanks around it. -/
inductive ValueText : List Char → Json → Prop
  | null : ValueText "null".toList .null
  | number {s : List Char} {n : Int} (h : NumberText s n) : ValueText s (.number n)
  | string {s : List Char} {text : String} (h : StringText s text) : ValueText s (.string text)
  | array {s : List Char} {items : List Json} (h : ListText ValueText s items) :
    ValueText ('[' :: (s ++ [']'])) (.array items)
  | object {s : List Char} {fields : List (String × Json)} (h : ListText FieldText s fields) :
    ValueText ('\x7b' :: (s ++ ['\x7d'])) (.object fields)

/-- The texts of a field of an object. -/
inductive FieldText : List Char → String × Json → Prop
  | mk {k v w s : List Char} {key : String} {value : Json} (hkey : StringText k key) (hv : Gap v)
      (hw : Gap w) (hvalue : ValueText s value) :
    FieldText (k ++ (v ++ ':' :: (w ++ s))) (key, value)

end

/-- The texts of a document: blanks may stand around its value. -/
def DocumentText (s : List Char) (j : Json) : Prop :=
  ∃ v t w, s = v ++ (t ++ w) ∧ Gap v ∧ ValueText t j ∧ Gap w

/-! ## One character and one string -/

/-- The character of two halves outside the first plane, if the second half follows. -/
def secondHalf? (high : Nat) : List Char → Option (Char × List Char)
  | '\\' :: 'u' :: y₁ :: y₂ :: y₃ :: y₄ :: r => do
    let low ← hexQuad? y₁ y₂ y₃ y₄
    some (Char.ofNat (0x10000 + (high - 0xd800) * 0x400 + (low - 0xdc00)), r)
  | _ => none

/-- The character that the start of a text spells, and the text after it. -/
def firstChar? : List Char → Option (Char × List Char)
  | '\\' :: 'u' :: x₁ :: x₂ :: x₃ :: x₄ :: r => do
    let n ← hexQuad? x₁ x₂ x₃ x₄
    if n < 0xd800 ∨ 0xe000 ≤ n then some (Char.ofNat n, r) else secondHalf? n r
  | '\\' :: e :: r => (shortEscape? e).map (·, r)
  | c :: r => some (c, r)
  | [] => none

theorem CharText.firstChar?_append {s : List Char} {c : Char} (h : CharText s c) (r : List Char) :
    firstChar? (s ++ r) = some (c, r) := by
  cases h with
  | plain _ _ hback => simp [firstChar?, hback]
  | @short e c h =>
    have hu : e ≠ 'u' := by
      rintro rfl
      exact absurd h (by simp [shortEscape?])
    simp [firstChar?, hu, h]
  | unicode hn hvalid => simp [firstChar?, hn, hvalid]
  | @surrogates _ _ _ _ _ _ _ _ high _ hhigh hlow hhighs _ =>
    have hhalf : ¬(high < 0xd800 ∨ 0xe000 ≤ high) := by omega
    simp [firstChar?, hhigh, hhalf, secondHalf?, hlow]

/-- The text of a character ends where the character says. -/
theorem CharText.unique {s s' r r' : List Char} {c c' : Char} (h : CharText s c)
    (h' : CharText s' c') (heq : s ++ r = s' ++ r') : c = c' ∧ r = r' := by
  have hread := h.firstChar?_append r
  rw [heq, h'.firstChar?_append r'] at hread
  exact ⟨(Prod.mk.inj (Option.some.inj hread)).1.symm, (Prod.mk.inj (Option.some.inj hread)).2.symm⟩

theorem CharText.ne_quote {s r r' : List Char} {c : Char} (h : CharText s c) :
    s ++ r ≠ '"' :: r' := by
  cases h with
  | plain _ hquote _ =>
    intro heq
    exact hquote (List.cons.inj heq).1
  | short _ | unicode _ _ | surrogates _ _ _ _ => simp

/-- The first quote that is not escaped ends a string. -/
theorem CharsText.unique {s s' r r' text text' : List Char} (h : CharsText s text)
    (h' : CharsText s' text') (heq : s ++ '"' :: r = s' ++ '"' :: r') : text = text' ∧ r = r' := by
  induction h generalizing s' text' with
  | nil =>
    cases h' with
    | nil => exact ⟨rfl, (List.cons.inj heq).2⟩
    | cons hchar _ =>
      rw [List.append_assoc] at heq
      exact absurd heq.symm hchar.ne_quote
  | cons hchar _ ih =>
    cases h' with
    | nil =>
      rw [List.append_assoc] at heq
      exact absurd heq hchar.ne_quote
    | cons hchar' hrest' =>
      rw [List.append_assoc, List.append_assoc] at heq
      obtain ⟨rfl, heq⟩ := hchar.unique hchar' heq
      obtain ⟨rfl, rfl⟩ := ih hrest' heq
      exact ⟨rfl, rfl⟩

theorem StringText.unique {s s' r r' : List Char} {text text' : String} (h : StringText s text)
    (h' : StringText s' text') (heq : s ++ r = s' ++ r') : text = text' ∧ r = r' := by
  cases h with
  | mk h =>
    cases h' with
    | mk h' =>
      simp only [List.cons_append, List.append_assoc, List.cons.injEq, List.nil_append,
        true_and] at heq
      obtain ⟨htext, hr⟩ := h.unique h' heq
      exact ⟨String.toList_inj.mp htext, hr⟩

/-! ## Numbers -/

theorem DigitsText.unique {s s' r r' : List Char} {n n' : Nat} (h : DigitsText s n)
    (h' : DigitsText s' n') (hr : headIs isNumeral r = false) (hr' : headIs isNumeral r' = false)
    (heq : s ++ r = s' ++ r') : n = n' ∧ r = r' := by
  obtain ⟨rfl, rfl⟩ := run_unique heq h.numerals h'.numerals hr hr'
  exact ⟨Option.some.inj (h.value.symm.trans h'.value), rfl⟩

theorem DigitsText.head {s : List Char} {n : Nat} (h : DigitsText s n) :
    ∃ c t, s = c :: t ∧ isNumeral c := by
  cases s with
  | nil => exact absurd h.value (by simp [natural?])
  | cons c t => exact ⟨c, t, rfl, h.numerals c List.mem_cons_self⟩

theorem DigitsText.ne_minus {s r r' : List Char} {n : Nat} (h : DigitsText s n) :
    s ++ r ≠ '-' :: r' := by
  obtain ⟨c, t, rfl, hc⟩ := h.head
  intro heq
  rw [(List.cons.inj heq).1] at hc
  exact absurd hc (by decide)

theorem NumberText.unique {s s' r r' : List Char} {n n' : Int} (h : NumberText s n)
    (h' : NumberText s' n') (hr : headIs isNumeral r = false) (hr' : headIs isNumeral r' = false)
    (heq : s ++ r = s' ++ r') : n = n' ∧ r = r' := by
  cases h with
  | unsigned h =>
    cases h' with
    | unsigned h' =>
      obtain ⟨rfl, rfl⟩ := h.unique h' hr hr' heq
      exact ⟨rfl, rfl⟩
    | negative _ => exact absurd heq h.ne_minus
  | negative h =>
    cases h' with
    | unsigned h' => exact absurd heq.symm h'.ne_minus
    | negative h' =>
      obtain ⟨rfl, rfl⟩ := h.unique h' hr hr' (List.cons.inj heq).2
      exact ⟨rfl, rfl⟩

/-! ## The first character -/

inductive Kind where
  | null
  | number
  | string
  | array
  | object
  deriving DecidableEq

def kind : Json → Kind
  | .null => .null
  | .number _ => .number
  | .string _ => .string
  | .array _ => .array
  | .object _ => .object

/-- The kind of the documents that start with a character. -/
def kindOf? (c : Char) : Option Kind :=
  if c = 'n' then some .null
  else if c = '-' ∨ isNumeral c then some .number
  else if c = '"' then some .string
  else if c = '[' then some .array
  else if c = '\x7b' then some .object
  else none

theorem kindOf?_of_isNumeral {c : Char} (h : isNumeral c) : kindOf? c = some .number := by
  have hn : c ≠ 'n' := by
    rintro rfl
    exact absurd h (by decide)
  simp [kindOf?, hn, h]

/-- The first character of a document tells its kind. -/
theorem ValueText.head {s : List Char} {j : Json} (h : ValueText s j) :
    ∃ c t, s = c :: t ∧ kindOf? c = some j.kind := by
  cases h with
  | null => exact ⟨'n', _, rfl, rfl⟩
  | number h =>
    cases h with
    | unsigned h =>
      obtain ⟨c, t, rfl, hc⟩ := h.head
      exact ⟨c, t, rfl, kindOf?_of_isNumeral hc⟩
    | negative _ => exact ⟨'-', _, rfl, rfl⟩
  | string h =>
    cases h with
    | mk _ => exact ⟨'"', _, rfl, rfl⟩
  | array _ => exact ⟨'[', _, rfl, rfl⟩
  | object _ => exact ⟨'\x7b', _, rfl, rfl⟩

theorem ValueText.kind_eq {s s' r r' : List Char} {j j' : Json} (h : ValueText s j)
    (h' : ValueText s' j') (heq : s ++ r = s' ++ r') : j.kind = j'.kind := by
  obtain ⟨c, t, rfl, hc⟩ := h.head
  obtain ⟨c', t', rfl, hc'⟩ := h'.head
  rw [(List.cons.inj heq).1] at hc
  exact Option.some.inj (hc.symm.trans hc')

/-- A text that starts as a document does. -/
def Opens (s : List Char) : Prop := ∃ c t, s = c :: t ∧ kindOf? c ≠ none

theorem Opens.headIs_isXmlSpace {s : List Char} (h : Opens s) (r : List Char) :
    headIs isXmlSpace (s ++ r) = false := by
  obtain ⟨c, t, rfl, hc⟩ := h
  refine Bool.eq_false_iff.mpr fun hblank => hc ?_
  exact of_isXmlSpace (P := fun x => kindOf? x = none) hblank (forall_mem_of_all rfl)

theorem ValueText.opens {s : List Char} {j : Json} (h : ValueText s j) : Opens s := by
  obtain ⟨c, t, rfl, hc⟩ := h.head
  exact ⟨c, t, rfl, by simp [hc]⟩

theorem FieldText.opens {s : List Char} {field : String × Json} (h : FieldText s field) :
    Opens s := by
  cases h with
  | mk hkey _ _ _ =>
    cases hkey with
    | mk _ => exact ⟨'"', _, rfl, by decide⟩

/-! ## Documents -/

/-- A text that starts with a text of `a` starts with a text of nothing else, and what follows
is the same, unless a digit follows: a number does not tell where it ends. -/
def Ends {α : Type} (Part : List Char → α → Prop) (a : α) : Prop :=
  ∀ ⦃s s' r r' : List Char⦄ ⦃a' : α⦄, Part s a → Part s' a' → headIs isNumeral r = false →
    headIs isNumeral r' = false → s ++ r = s' ++ r' → a = a' ∧ r = r'

/-- A mark that ends a part of an array or an object. -/
def isMark (c : Char) : Bool := c == ',' || c == ']' || c == '\x7d'

theorem of_isMark {P : Char → Prop} {c : Char} (h : isMark c)
    (hall : ∀ x ∈ ",]\x7d".toList, P x) : P c :=
  hall c (by simpa [isMark, or_assoc] using h)

theorem headIs_isXmlSpace_of_isMark {c : Char} (h : isMark c) (s : List Char) :
    headIs isXmlSpace (c :: s) = false :=
  of_isMark (P := fun x => isXmlSpace x = false) h (forall_mem_of_all rfl)

theorem Gap.headIs_isNumeral {w : List Char} (hw : Gap w) {s : List Char}
    (hs : headIs isNumeral s = false) : headIs isNumeral (w ++ s) = false := by
  cases w with
  | nil => exact hs
  | cons c w =>
    have hc := hw c List.mem_cons_self
    exact XPath.isNumeral_of_isXmlSpace hc

/-- One part with the blanks around it and the mark after it. -/
theorem Ends.part {α : Type} {Part : List Char → α → Prop} {a a' : α} (h : Ends Part a)
    (hopens : ∀ {s a}, Part s a → Opens s) {v v' s s' w w' t t' : List Char} {m m' : Char}
    (hv : Gap v) (hv' : Gap v') (ha : Part s a) (ha' : Part s' a') (hw : Gap w) (hw' : Gap w')
    (hm : isMark m) (hm' : isMark m')
    (heq : v ++ (s ++ (w ++ m :: t)) = v' ++ (s' ++ (w' ++ m' :: t'))) :
    a = a' ∧ m = m' ∧ t = t' := by
  have hfollow : ∀ {w t m}, Gap w → isMark m → headIs isNumeral (w ++ m :: t) = false := by
    intro w t m hw hm
    apply hw.headIs_isNumeral
    exact of_isMark (P := fun x => isNumeral x = false) hm (forall_mem_of_all rfl)
  have hpart := hv.unique hv' heq ((hopens ha).headIs_isXmlSpace _)
    ((hopens ha').headIs_isXmlSpace _)
  obtain ⟨rfl, hrest⟩ := h ha ha' (hfollow hw hm) (hfollow hw' hm') hpart
  obtain ⟨rfl, rfl⟩ := List.cons.inj (hw.unique hw' hrest (headIs_isXmlSpace_of_isMark hm t)
    (headIs_isXmlSpace_of_isMark hm' t'))
  exact ⟨rfl, rfl, rfl⟩

/-- Parts up to the bracket that closes them. -/
theorem PartsText.unique {α : Type} {Part : List Char → α → Prop} {parts parts' : List α}
    {s s' r r' : List Char} {close : Char} (h : PartsText Part s parts)
    (h' : PartsText Part s' parts') (hends : ∀ a ∈ parts, Ends Part a)
    (hopens : ∀ {s a}, Part s a → Opens s) (hclose : isMark close) (hcomma : close ≠ ',')
    (heq : s ++ close :: r = s' ++ close :: r') : parts = parts' ∧ r = r' := by
  induction h generalizing s' parts' with
  | last hv ha hw =>
    have hpart := hends _ List.mem_cons_self
    cases h' with
    | last hv' ha' hw' =>
      simp only [List.append_assoc] at heq
      obtain ⟨rfl, -, rfl⟩ := hpart.part hopens hv hv' ha ha' hw hw' hclose hclose heq
      exact ⟨rfl, rfl⟩
    | cons hv' ha' hw' _ =>
      simp only [List.append_assoc, List.cons_append] at heq
      obtain ⟨-, hmark, -⟩ := hpart.part hopens hv hv' ha ha' hw hw' hclose rfl heq
      exact absurd hmark hcomma
  | cons hv ha hw _ ih =>
    obtain ⟨hpart, hends⟩ := List.forall_mem_cons.mp hends
    cases h' with
    | last hv' ha' hw' =>
      simp only [List.append_assoc, List.cons_append] at heq
      obtain ⟨-, hmark, -⟩ := hpart.part hopens hv hv' ha ha' hw hw' rfl hclose heq
      exact absurd hmark.symm hcomma
    | cons hv' ha' hw' hparts' =>
      simp only [List.append_assoc, List.cons_append] at heq
      obtain ⟨rfl, -, heq⟩ := hpart.part hopens hv hv' ha ha' hw hw' rfl rfl heq
      obtain ⟨rfl, rfl⟩ := ih hparts' hends heq
      exact ⟨rfl, rfl⟩

theorem PartsText.start {α : Type} {Part : List Char → α → Prop} {parts : List α}
    {s : List Char} (h : PartsText Part s parts) (hopens : ∀ {s a}, Part s a → Opens s) :
    ∃ v t u, s = v ++ (t ++ u) ∧ Gap v ∧ Opens t := by
  cases h with
  | last hv ha _ => exact ⟨_, _, _, rfl, hv, hopens ha⟩
  | cons hv ha _ _ => exact ⟨_, _, _, rfl, hv, hopens ha⟩

/-- Blanks alone are not one or more parts. -/
theorem PartsText.ne_gap {α : Type} {Part : List Char → α → Prop} {parts : List α}
    {s v r r' : List Char} {close : Char} (h : PartsText Part s parts)
    (hopens : ∀ {s a}, Part s a → Opens s) (hclose : isMark close) (hv : Gap v) :
    s ++ close :: r ≠ v ++ close :: r' := by
  obtain ⟨w, t, u, rfl, hw, ht⟩ := h.start hopens
  intro heq
  simp only [List.append_assoc] at heq
  have hrest := hw.unique hv heq (ht.headIs_isXmlSpace _) (headIs_isXmlSpace_of_isMark hclose r')
  obtain ⟨c, t, rfl, hc⟩ := ht
  rw [(List.cons.inj hrest).1] at hc
  apply hc
  exact of_isMark (P := fun x => kindOf? x = none) hclose (forall_mem_of_all rfl)

theorem ListText.unique {α : Type} {Part : List Char → α → Prop} {parts parts' : List α}
    {s s' r r' : List Char} {close : Char} (h : ListText Part s parts)
    (h' : ListText Part s' parts') (hends : ∀ a ∈ parts, Ends Part a)
    (hopens : ∀ {s a}, Part s a → Opens s) (hclose : isMark close) (hcomma : close ≠ ',')
    (heq : s ++ close :: r = s' ++ close :: r') : parts = parts' ∧ r = r' := by
  cases h with
  | empty hv =>
    cases h' with
    | empty hv' =>
      have hrest := hv.unique hv' heq (headIs_isXmlSpace_of_isMark hclose r)
        (headIs_isXmlSpace_of_isMark hclose r')
      exact ⟨rfl, (List.cons.inj hrest).2⟩
    | parts h' => exact absurd heq.symm (h'.ne_gap hopens hclose hv)
  | parts h =>
    cases h' with
    | empty hv' => exact absurd heq (h.ne_gap hopens hclose hv')
    | parts h' => exact h.unique h' hends hopens hclose hcomma heq

theorem FieldText.ends {key : String} {value : Json} (h : Ends ValueText value) :
    Ends FieldText (key, value) := by
  intro s s' r r' field' hfield hfield' hr hr' heq
  cases hfield with
  | mk hkey hv hw hvalue =>
    cases hfield' with
    | mk hkey' hv' hw' hvalue' =>
      simp only [List.append_assoc, List.cons_append] at heq
      obtain ⟨rfl, heq⟩ := hkey.unique hkey' heq
      have hcolon := (List.cons.inj (hv.unique hv' heq rfl rfl)).2
      have hsame := hw.unique hw' hcolon (hvalue.opens.headIs_isXmlSpace _)
        (hvalue'.opens.headIs_isXmlSpace _)
      obtain ⟨rfl, rfl⟩ := h hvalue hvalue' hr hr' hsame
      exact ⟨rfl, rfl⟩

/-- The documents that stand in a document. -/
def children : Json → List Json
  | .array items => items
  | .object fields => fields.map (·.2)
  | _ => []

theorem induction_children {motive : Json → Prop}
    (h : ∀ j, (∀ i ∈ j.children, motive i) → motive j) (j : Json) : motive j := by
  refine h j fun i hi => ?_
  have hsize : sizeOf i < sizeOf j := by
    cases j with
    | array items =>
      have hlt := List.sizeOf_lt_of_mem (show i ∈ items from hi)
      simp only [array.sizeOf_spec]
      omega
    | object fields =>
      obtain ⟨⟨key, value⟩, hfield, rfl⟩ := List.mem_map.mp hi
      have hlt := List.sizeOf_lt_of_mem hfield
      simp only [Prod.mk.sizeOf_spec] at hlt
      simp only [object.sizeOf_spec]
      omega
    | null | number _ | string _ => exact absurd hi List.not_mem_nil
  exact induction_children h i
termination_by sizeOf j

theorem ValueText.ends (j : Json) : Ends ValueText j := by
  induction j using induction_children with
  | h j ih =>
    intro s s' r r' j' hs hs' hr hr' heq
    have hkind := hs.kind_eq hs' heq
    cases hs with
    | null =>
      cases hs' with
      | null => exact ⟨rfl, List.append_cancel_left heq⟩
      | number _ | string _ | array _ | object _ => cases hkind
    | number h =>
      cases hs' with
      | number h' =>
        obtain ⟨rfl, rfl⟩ := h.unique h' hr hr' heq
        exact ⟨rfl, rfl⟩
      | null | string _ | array _ | object _ => cases hkind
    | string h =>
      cases hs' with
      | string h' =>
        obtain ⟨rfl, rfl⟩ := h.unique h' heq
        exact ⟨rfl, rfl⟩
      | null | number _ | array _ | object _ => cases hkind
    | array h =>
      cases hs' with
      | array h' =>
        simp only [List.cons_append, List.append_assoc, List.nil_append] at heq
        obtain ⟨rfl, rfl⟩ :=
          h.unique h' ih ValueText.opens rfl (by decide) (List.cons.inj heq).2
        exact ⟨rfl, rfl⟩
      | null | number _ | string _ | object _ => cases hkind
    | @object _ fields h =>
      cases hs' with
      | object h' =>
        have hfields : ∀ field ∈ fields, Ends FieldText field := fun field hfield =>
          FieldText.ends (ih field.2 (List.mem_map_of_mem hfield))
        simp only [List.cons_append, List.append_assoc, List.nil_append] at heq
        obtain ⟨rfl, rfl⟩ :=
          h.unique h' hfields FieldText.opens rfl (by decide) (List.cons.inj heq).2
        exact ⟨rfl, rfl⟩
      | null | number _ | string _ | array _ => cases hkind

/-- A text is a text of at most one document. -/
theorem DocumentText.unique {s : List Char} {j j' : Json} (h : DocumentText s j)
    (h' : DocumentText s j') : j = j' := by
  obtain ⟨v, t, w, rfl, hv, ht, hw⟩ := h
  obtain ⟨v', t', w', heq, hv', ht', hw'⟩ := h'
  have hsame := hv.unique hv' heq (ht.opens.headIs_isXmlSpace w) (ht'.opens.headIs_isXmlSpace w')
  have hnone : ∀ {w}, Gap w → headIs isNumeral w = false := fun hw => by
    simpa using hw.headIs_isNumeral (s := []) rfl
  exact (ValueText.ends j ht ht' (hnone hw) (hnone hw') hsame).1

end SelectorPath.Json
