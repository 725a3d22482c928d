import SelectorPath.Pattern.Basic
import SelectorPath.Text.Decimal

/-!
Reading a written pattern. The notation has characters, a backslash before punctuation,
the classes `\w`, `\s` and `\d`, a point for any character but the line feed, sets in
brackets, groups `(...)`, `(?:...)` and `(?i:...)`, branches, and the repetitions
`*`, `+`, `?` and `{m,n}`, each of them lazy if a question mark follows.

A pattern is read in two passes: `symbols?` cuts its text into symbols, and `build?` puts
these together with a stack of open groups.
-/

namespace SelectorPath.Pattern

/-- A unit of a written pattern. -/
inductive Symbol where
  | set (set : CharSet)
  | opening (numbered foldCase : Bool)
  | closing
  | bar
  | repetition (greedy : Bool) (min : Nat) (max : Option Nat)
  deriving DecidableEq, Repr

/-- The meaning of a character after a backslash. The angle brackets are left out because
escaped they would stand for a place and not for a character. -/
def escape? (c : Char) : Option CharClass :=
  match c with
  | 'w' => some .word
  | 's' => some .space
  | 'd' => some .digit
  | c => if c.toNat < 0x80 ∧ !c.isAlphanum ∧ c ≠ '<' ∧ c ≠ '>' then some (.single c) else none

/-- A unit of a set in brackets. -/
inductive SetSymbol where
  | char (c : Char)
  | hyphen
  | named (cls : CharClass)

/-- The units up to the closing bracket, and the text after it. -/
def setSymbols? : List Char → Option (List SetSymbol × List Char)
  | [] => none
  | ']' :: rest => some ([], rest)
  | '[' :: _ => none
  | ['\\'] => none
  | '\\' :: c :: rest => do
    let unit ← match ← escape? c with
      | .range c _ => some (.char c)
      | cls => some (.named cls)
    let (units, rest) ← setSymbols? rest
    some (unit :: units, rest)
  | '-' :: rest => do
    let (units, rest) ← setSymbols? rest
    some (.hyphen :: units, rest)
  | c :: rest => do
    let (units, rest) ← setSymbols? rest
    some (.char c :: units, rest)

/-- The classes of the units. A hyphen between two characters makes a range, and no other
range is allowed. A hyphen at the start, at the end or after a range stands for itself. -/
def setClasses? : List SetSymbol → Option (List CharClass)
  | [] => some []
  | .char lo :: .hyphen :: .char hi :: rest =>
    if lo ≤ hi then (setClasses? rest).map (.range lo hi :: ·) else none
  | .char _ :: .hyphen :: .named _ :: _ => none
  | .named _ :: .hyphen :: .char _ :: _ => none
  | .named _ :: .hyphen :: .named _ :: _ => none
  | .char c :: rest => (setClasses? rest).map (.single c :: ·)
  | .hyphen :: rest => (setClasses? rest).map (.single '-' :: ·)
  | .named cls :: rest => (setClasses? rest).map (cls :: ·)

/-- A set whose opening bracket, and circumflex if it is negated, was read. A closing
bracket that comes first stands for itself and starts no range. -/
def set? (negated : Bool) (s : List Char) : Option (Symbol × List Char) := do
  let (first, s) := match s with
    | ']' :: s => ([.single ']'], s)
    | s => ([], s)
  let (units, rest) ← setSymbols? s
  let classes ← setClasses? units
  some (.set ⟨first ++ classes, negated⟩, rest)

/-- A repetition is lazy if a question mark follows it. -/
def repetition (min : Nat) (max : Option Nat) : List Char → Symbol × List Char
  | '?' :: rest => (.repetition false min max, rest)
  | rest => (.repetition true min max, rest)

/-- The bounds of a repetition whose opening brace was read. -/
def bounds? (s : List Char) : Option (Symbol × List Char) := do
  let min ← Text.natural? (s.takeWhile Char.isDigit)
  match s.dropWhile Char.isDigit with
  | '}' :: rest => some (repetition min (some min) rest)
  | ',' :: '}' :: rest => some (repetition min none rest)
  | ',' :: s =>
    let max ← Text.natural? (s.takeWhile Char.isDigit)
    match s.dropWhile Char.isDigit with
    | '}' :: rest => if min ≤ max then some (repetition min (some max) rest) else none
    | _ => none
  | _ => none

/-- The first symbol of a text, and the text after it. -/
def symbol? : List Char → Option (Symbol × List Char)
  | '\\' :: c :: rest => (escape? c).map fun cls => (.set (.of [cls]), rest)
  | '[' :: '^' :: rest => set? true rest
  | '[' :: rest => set? false rest
  | '(' :: '?' :: ':' :: rest => some (.opening false false, rest)
  | '(' :: '?' :: 'i' :: ':' :: rest => some (.opening false true, rest)
  | '(' :: '?' :: _ => none
  | '(' :: rest => some (.opening true false, rest)
  | ')' :: rest => some (.closing, rest)
  | '|' :: rest => some (.bar, rest)
  | '.' :: rest => some (.set .anyButLineFeed, rest)
  | '*' :: rest => some (repetition 0 none rest)
  | '+' :: rest => some (repetition 1 none rest)
  | '?' :: rest => some (repetition 0 (some 1) rest)
  | '{' :: rest => bounds? rest
  | '\\' :: _ => none
  | '^' :: _ => none
  | '$' :: _ => none
  | c :: rest => some (.set (.single c), rest)
  | [] => none

/-- The symbols of a text. -/
def symbols? (s : List Char) : Option (List Symbol) :=
  if s.isEmpty then some []
  else match symbol? s with
    | none => none
    | some (symbol, rest) =>
      if rest.length < s.length then (symbols? rest).map (symbol :: ·) else none
termination_by s.length

/-- A part of a branch. One that holds a numbered group is the same as no other. -/
structure Part where
  pattern : Pattern
  numbered : Bool
  deriving DecidableEq, Repr

namespace Part

/-- The pattern of some parts, one after the other. -/
def sequence (parts : List Part) : Pattern := Pattern.all (parts.map pattern)

/-- The parts of a repetition. What is repeated no times leaves no part, and what is
repeated once stays as it is. -/
def repeated (greedy : Bool) (item : List Part) (min : Nat) (max : Option Nat) : List Part :=
  if max = some 0 then []
  else if min = 1 ∧ max = some 1 then item
  else [⟨between greedy (sequence item) min max, item.any numbered⟩]

/-- The same parts that two branches begin with. -/
def commonStart : List Part → List Part → List Part
  | p :: ps, q :: qs => if p = q ∧ !p.numbered then p :: commonStart ps qs else []
  | _, _ => []

/-- The parts of some branches taken together. If every branch has several parts and all
begin with the same ones, these come first, and only what is left of the branches is a
choice. -/
def choice : List (List Part) → List Part
  | [] => []
  | [branch] => branch
  | first :: rest =>
    let start :=
      if (first :: rest).all (2 ≤ ·.length) then rest.foldl commonStart first else []
    let left := fun (branch : List Part) => sequence (branch.drop start.length)
    start ++ [⟨Pattern.any (left first) (rest.map left), (first :: rest).any (·.any numbered)⟩]

end Part

/-- An open group: its finished branches and what was read of the next one, each with the
last one first. What a group without a number holds becomes parts of the branch around it. -/
structure Group where
  numbered : Bool
  foldCase : Bool
  branches : List (List Part)
  items : List (List Part)

namespace Group

def opened (numbered foldCase : Bool) : Group := ⟨numbered, foldCase, [], []⟩

def add (group : Group) (item : List Part) : Group := { group with items := item :: group.items }

/-- Ends the branch being read. -/
def nextBranch (group : Group) : Group :=
  { group with branches := group.items.reverse.flatten :: group.branches, items := [] }

/-- The parts of the whole group. -/
def parts (group : Group) : List Part :=
  let parts := Part.choice group.nextBranch.branches.reverse
  if group.numbered then [⟨Part.sequence parts, true⟩] else parts

end Group

/-- The pattern that the symbols describe, inside the given groups. The innermost group
comes first. -/
def build? (group : Group) (outer : List Group) : List Symbol → Option Pattern
  | [] => if outer.isEmpty then some (Part.sequence group.parts) else none
  | .set set :: rest =>
    let set := if group.foldCase then set.foldCase else set
    build? (group.add [⟨.one set, false⟩]) outer rest
  | .opening numbered foldCase :: rest =>
    build? (.opened numbered (foldCase || group.foldCase)) (group :: outer) rest
  | .closing :: rest =>
    match outer with
    | [] => none
    | next :: outer => build? (next.add group.parts) outer rest
  | .bar :: rest => build? group.nextBranch outer rest
  | .repetition greedy min max :: rest =>
    match group.items with
    | [] => none
    | item :: items =>
      build? { group with items := Part.repeated greedy item min max :: items } outer rest

/-- The pattern that a text describes, if it is well formed. -/
def ofText? (text : String) : Option Pattern := do
  build? (.opened false false) [] (← symbols? text.toList)

end SelectorPath.Pattern
