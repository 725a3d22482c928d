import SelectorPath.Text.Digit
import SelectorPath.Text.Space
import SelectorPath.Text.Word

/-!
Sets of characters, as they are written between brackets in a pattern.
-/

namespace SelectorPath

/-- A part of a character set: a closed range or one of the named classes. -/
inductive CharClass where
  | range (lo hi : Char)
  | space
  | digit
  | word
  deriving DecidableEq, Repr

namespace CharClass

/-- The class of one character. -/
def single (c : Char) : CharClass := .range c c

def contains (c : Char) : CharClass → Bool
  | .range lo hi => lo ≤ c && c ≤ hi
  | .space => Text.isSpace c
  | .digit => Text.isDigit c
  | .word => Text.isWord c

end CharClass

/-- The characters of some classes or, for a negated set, all others. -/
structure CharSet where
  classes : List CharClass
  negated : Bool
  deriving DecidableEq, Repr

namespace CharSet

/-- The set of the characters of some classes. -/
def of (classes : List CharClass) : CharSet := ⟨classes, false⟩

/-- The set of one character. -/
def single (c : Char) : CharSet := of [.single c]

/-- Every character but the line feed. -/
def anyButLineFeed : CharSet := ⟨[.single '\n'], true⟩

def contains (set : CharSet) (c : Char) : Bool :=
  set.classes.any (CharClass.contains c) != set.negated

/-- The characters that differ from an ASCII letter in case only. The Kelvin sign and the
long s fold to `k` and `s`. -/
def caseVariants : List (List Char) :=
  [['a', 'A'], ['b', 'B'], ['c', 'C'], ['d', 'D'], ['e', 'E'], ['f', 'F'], ['g', 'G'],
   ['h', 'H'], ['i', 'I'], ['j', 'J'], ['k', 'K', '\u212a'], ['l', 'L'], ['m', 'M'],
   ['n', 'N'], ['o', 'O'], ['p', 'P'], ['q', 'Q'], ['r', 'R'], ['s', 'S', '\u017f'],
   ['t', 'T'], ['u', 'U'], ['v', 'V'], ['w', 'W'], ['x', 'X'], ['y', 'Y'], ['z', 'Z']]

/-- The set that also has every other case of the ASCII letters of its classes. -/
def foldCase (set : CharSet) : CharSet :=
  let present := caseVariants.filter fun variants =>
    variants.any fun c => set.classes.any (CharClass.contains c)
  { set with classes := set.classes ++ present.flatten.map CharClass.single }

end CharSet

end SelectorPath
