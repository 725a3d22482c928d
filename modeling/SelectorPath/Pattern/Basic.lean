import SelectorPath.Pattern.CharSet

/-!
Patterns of text. A pattern that can match in several ways prefers some of them: the first
branch before the second, and a greedy repetition before its end.
-/

namespace SelectorPath

/-- A pattern. A `loop` is what follows a round of a repetition: one more round of the body,
and so on, or the end. -/
inductive Pattern where
  | empty
  | one (set : CharSet)
  | seq (first second : Pattern)
  | alt (first second : Pattern)
  | loop (greedy : Bool) (body : Pattern)
  deriving DecidableEq, Repr

namespace Pattern

/-- Whether the pattern can match without taking a character. -/
def nullable : Pattern → Bool
  | .empty => true
  | .one _ => false
  | .seq p q => nullable p && nullable q
  | .alt p q => nullable p || nullable q
  | .loop _ _ => true

/-- The number of steps in a pattern. -/
def size : Pattern → Nat
  | .empty => 1
  | .one _ => 1
  | .seq p q => size p + size q
  | .alt p q => size p + size q + 1
  | .loop _ p => size p + 1

/-- The pattern of one character. -/
def char (c : Char) : Pattern := .one (.single c)

/-- The body or nothing, the body first if the pattern is greedy. -/
def optional (greedy : Bool) (body : Pattern) : Pattern :=
  if greedy then .alt body .empty else .alt .empty body

/-- One or more times the body. -/
def oneOrMore (greedy : Bool) (body : Pattern) : Pattern := .seq body (.loop greedy body)

/-- Any number of times the body. If the body can match nothing, its first round may do so
and end the repetition, so that round stands before the loop. -/
def zeroOrMore (greedy : Bool) (body : Pattern) : Pattern :=
  if body.nullable then optional greedy (oneOrMore greedy body) else .loop greedy body

/-- The patterns one after the other. -/
def all : List Pattern → Pattern
  | [] => .empty
  | [p] => p
  | p :: rest => .seq p (all rest)

/-- One of the patterns, an earlier one before a later one. -/
def any (first : Pattern) : List Pattern → Pattern
  | [] => first
  | p :: rest => .alt first (any p rest)

/-- At most `n` times the body. -/
def atMost (greedy : Bool) (body : Pattern) : Nat → Pattern
  | 0 => .empty
  | 1 => optional greedy body
  | n + 2 => optional greedy (.seq body (atMost greedy body (n + 1)))

/-- At least `min` and at most `max` times the body, or without a bound above. -/
def between (greedy : Bool) (body : Pattern) (min : Nat) (max : Option Nat) : Pattern :=
  match min, max with
  | 0, none => zeroOrMore greedy body
  | min + 1, none => (List.replicate min body).foldr .seq (oneOrMore greedy body)
  | min, some max =>
    all (List.replicate min body ++ if max = min then [] else [atMost greedy body (max - min)])

end Pattern

end SelectorPath
