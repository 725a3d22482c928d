import Mathlib
import SelectorPath.Selector.Basic

/-!
Documents: ordered trees of elements with names and attributes. An element is referred to by
its address, which says where it stands among the children of its parent and then where the
parent stands, so that the elements inside an element are those with its address as a suffix.
-/

namespace SelectorPath

inductive Element where
  | mk (name : String) (attributes : AList fun _ : String => String) (children : List Element)

namespace Element

def name : Element → String
  | .mk name _ _ => name

def attributes : Element → AList fun _ : String => String
  | .mk _ attributes _ => attributes

def children : Element → List Element
  | .mk _ _ children => children

end Element

/-- Where an element stands in an element around it, from the inside out. -/
abbrev Address := List Nat

/-- The element at an address below an element. -/
def Element.at? (x : Element) : Address → Option Element
  | [] => some x
  | i :: a => (x.at? a).bind fun parent => parent.children[i]?

/-- A document has a root, with one element in it, the document element. -/
structure Document where
  documentElement : Element

namespace Document

variable (doc : Document)

def at? (a : Address) : Option Element := doc.documentElement.at? a

/-- The document has an element at an address. -/
def Has (a : Address) : Prop := (doc.at? a).isSome

def name? (a : Address) : Option String := (doc.at? a).map Element.name

def attributeNames (a : Address) : List String :=
  ((doc.at? a).map fun x => x.attributes.keys).getD []

def attribute? (a : Address) (name : String) : Option String :=
  (doc.at? a).bind fun x => x.attributes.lookup name

def childCount (a : Address) : Nat := ((doc.at? a).map fun x => x.children.length).getD 0

def children (a : Address) : List Address := (List.range (doc.childCount a)).map (· :: a)

/-- The siblings in front of an element, in the order of the document. -/
def before : Address → List Address
  | [] => []
  | i :: a => (List.range i).map (· :: a)

/-- The siblings behind an element, in the order of the document. -/
def after : Address → List Address
  | [] => []
  | i :: a => (List.range' (i + 1) (doc.childCount a - (i + 1))).map (· :: a)

/-- Whether a sibling counts in a position. -/
def alike (among : Among) (a b : Address) : Bool :=
  match among with
  | .children => true
  | .sameType => doc.name? b == doc.name? a

/-- The position of an element among its siblings, of which the first is 1. -/
def rank (among : Among) (a : Address) : Nat :=
  ((before a).filter (doc.alike among a)).length + 1

/-- The position of an element among its siblings from the last one on. -/
def rankFromEnd (among : Among) (a : Address) : Nat :=
  ((doc.after a).filter (doc.alike among a)).length + 1

end Document

/-! ## All elements -/

mutual

/-- The addresses of an element and of the elements in it, in the order of the document. -/
def Element.addresses (a : Address) : Element → List Address
  | .mk _ _ children => a :: Element.childAddresses a 0 children

def Element.childAddresses (a : Address) (i : Nat) : List Element → List Address
  | [] => []
  | x :: rest => x.addresses (i :: a) ++ Element.childAddresses a (i + 1) rest

end

def Document.addresses (doc : Document) : List Address := doc.documentElement.addresses []

namespace Element

theorem at?_append (x : Element) (a b : Address) :
    x.at? (a ++ b) = (x.at? b).bind fun y => y.at? a := by
  induction a with
  | nil => simp [at?]
  | cons i a ih =>
    rw [List.cons_append, at?, ih, Option.bind_assoc]
    rfl

/-- An address below an element starts, from the outside, with one of its children. -/
theorem at?_concat (x : Element) (a : Address) (i : Nat) :
    x.at? (a ++ [i]) = (x.children[i]?).bind fun child => child.at? a := by
  simp [at?_append, at?]

mutual

theorem mem_addresses {x : Element} {a b : Address} :
    b ∈ x.addresses a ↔ ∃ c, b = c ++ a ∧ (x.at? c).isSome := by
  match x with
  | .mk name attributes children =>
    rw [addresses, List.mem_cons, mem_childAddresses]
    constructor
    · rintro (rfl | ⟨i, child, c, hchild, rfl, hc⟩)
      · exact ⟨[], rfl, rfl⟩
      · refine ⟨c ++ [i], by simp, ?_⟩
        rw [at?_concat]
        simpa [Element.children, hchild] using hc
    · rintro ⟨c, rfl, hc⟩
      rcases List.eq_nil_or_concat c with rfl | ⟨c, i, rfl⟩
      · exact .inl rfl
      · rw [List.concat_eq_append, at?_concat] at hc
        obtain ⟨y, hy⟩ := Option.isSome_iff_exists.mp hc
        obtain ⟨child, hchild, hc⟩ := Option.bind_eq_some_iff.mp hy
        exact .inr ⟨i, child, c, hchild, by simp, by simp [hc]⟩

theorem mem_childAddresses {children : List Element} {a b : Address} {i : Nat} :
    b ∈ childAddresses a i children ↔
      ∃ j child c, children[j]? = some child ∧ b = c ++ (i + j) :: a ∧ (child.at? c).isSome := by
  match children with
  | [] => simp [childAddresses]
  | x :: rest =>
    rw [childAddresses, List.mem_append, mem_addresses, mem_childAddresses]
    constructor
    · rintro (⟨c, rfl, hc⟩ | ⟨j, child, c, hchild, rfl, hc⟩)
      · exact ⟨0, x, c, rfl, rfl, hc⟩
      · exact ⟨j + 1, child, c, by simpa using hchild, by rw [Nat.add_right_comm, Nat.add_assoc], hc⟩
    · rintro ⟨j, child, c, hchild, rfl, hc⟩
      cases j with
      | zero =>
        obtain rfl : x = child := by simpa using hchild
        exact .inl ⟨c, rfl, hc⟩
      | succ j =>
        refine .inr ⟨j, child, c, by simpa using hchild, ?_, hc⟩
        rw [Nat.add_right_comm, Nat.add_assoc]

end

end Element

namespace Document

variable {doc : Document}

theorem mem_addresses {a : Address} : a ∈ doc.addresses ↔ doc.Has a := by
  simp [addresses, Element.mem_addresses, Has, at?]

theorem has_cons {i : Nat} {a : Address} : doc.Has (i :: a) ↔ i < doc.childCount a := by
  unfold Has childCount at?
  rw [Element.at?]
  cases doc.documentElement.at? a with
  | none => simp
  | some x => simp

theorem Has.parent {i : Nat} {a : Address} (h : doc.Has (i :: a)) : doc.Has a := by
  obtain ⟨y, hy⟩ := Option.isSome_iff_exists.mp h
  obtain ⟨x, hx, -⟩ := Option.bind_eq_some_iff.mp hy
  exact Option.isSome_of_mem hx

/-! ## Siblings -/

theorem mem_children {a b : Address} : b ∈ doc.children a ↔ ∃ i, b = i :: a ∧ doc.Has b := by
  constructor
  · intro h
    obtain ⟨i, hi, rfl⟩ := List.mem_map.mp h
    exact ⟨i, rfl, has_cons.mpr (List.mem_range.mp hi)⟩
  · rintro ⟨i, rfl, h⟩
    exact List.mem_map_of_mem (List.mem_range.mpr (has_cons.mp h))

theorem children_nodup (a : Address) : (doc.children a).Nodup :=
  List.nodup_range.map fun _ _ h => (List.cons.inj h).1

theorem before_nodup (a : Address) : (before a).Nodup := by
  cases a with
  | nil => exact List.nodup_nil
  | cons i a => exact List.nodup_range.map fun _ _ h => (List.cons.inj h).1

theorem after_nodup (a : Address) : (doc.after a).Nodup := by
  cases a with
  | nil => exact List.nodup_nil
  | cons i a => exact (List.nodup_range' ..).map fun _ _ h => (List.cons.inj h).1

/-- The children of an element are one of them and its siblings. -/
theorem children_eq {i : Nat} {a : Address} (h : doc.Has (i :: a)) :
    doc.children a = before (i :: a) ++ (i :: a) :: doc.after (i :: a) := by
  obtain ⟨k, hk⟩ := Nat.exists_eq_add_of_lt (has_cons.mp h)
  have hrange : List.range (i + k + 1) = List.range i ++ i :: List.range' (i + 1) k := by
    rw [List.range_eq_range', List.range_eq_range', Nat.add_assoc, ← List.range'_append_1,
      Nat.zero_add, List.range'_succ]
  rw [children, hk, hrange, after, hk, Nat.add_right_comm, Nat.add_sub_cancel_left]
  simp [before]

end Document

end SelectorPath
