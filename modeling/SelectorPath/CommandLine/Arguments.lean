import SelectorPath.Compiler

/-!
The arguments of the command line.
-/

namespace SelectorPath.CommandLine

/-- What the flags ask for. -/
structure Settings where
  document : Bool
  skipInvalid : Bool
  tree : Bool
  maxLength : Option Nat
  deriving DecidableEq, Repr

namespace Settings

def standard : Settings := ⟨false, false, false, none⟩

def options (settings : Settings) : Options where
  anchor := if settings.document then .document else .context
  policy := if settings.skipInvalid then .skipInvalid else .strict
  maxLength := settings.maxLength

end Settings

/-- What a command line asks for. -/
inductive Request where
  | version
  | run (settings : Settings) (selectors : List String)
  deriving DecidableEq, Repr

/-- The greatest length limit. -/
def greatestLimit : Nat := 0xFFFFFFFFFFFFFFFF

/-- The settings with a length limit. The flag may be given once. -/
def setLimit (settings : Settings) (value : List Char) : Option Settings := do
  let limit ← Text.naturalUpTo? greatestLimit value
  if settings.maxLength.isNone then some { settings with maxLength := some limit } else none

/-- The settings with a flag that has no value. Each flag may be given once. -/
def setFlag (settings : Settings) (flag : String) : Option Settings :=
  match flag with
  | "--document" => if settings.document then none else some { settings with document := true }
  | "--skip-invalid" =>
    if settings.skipInvalid then none else some { settings with skipInvalid := true }
  | "--ast" => if settings.tree then none else some { settings with tree := true }
  | _ => none

/-- Whether an argument is a selector although no `--` stands before it. -/
def isSelector (argument : String) : Bool :=
  match argument.toList with
  | '-' :: _ :: _ => false
  | _ => true

/-- The limit that is given with its flag in one argument. -/
def attachedLimit? (argument : String) : Option (List Char) :=
  let flag := "--max-len=".toList
  if flag.isPrefixOf argument.toList then some (argument.toList.drop flag.length) else none

/-- The settings with a flag that is one argument, also where it holds its value. -/
def setArgument (settings : Settings) (argument : String) : Option Settings :=
  match attachedLimit? argument with
  | some value => setLimit settings value
  | none => setFlag settings argument

/-- What the arguments ask for, given what those before them asked for. They are looked at
from left to right, and the first wrong one makes the whole wrong. After `--` there are
only selectors. -/
def requestAfter (settings : Settings) (selectors : List String) : List String → Option Request
  | [] => some (.run settings selectors)
  | "--" :: rest => some (.run settings (selectors ++ rest))
  | "--version" :: _ => some .version
  | "-V" :: _ => some .version
  | ["--max-len"] => none
  | "--max-len" :: value :: rest =>
    if isSelector value then
      match setLimit settings value.toList with
      | some settings => requestAfter settings selectors rest
      | none => none
    else none
  | argument :: rest =>
    if isSelector argument then requestAfter settings (selectors ++ [argument]) rest
    else match setArgument settings argument with
      | some settings => requestAfter settings selectors rest
      | none => none

/-- What a command line asks for, if it is well formed. -/
def request? (arguments : List String) : Option Request :=
  requestAfter .standard [] arguments

end SelectorPath.CommandLine
