import SelectorPath.CommandLine.Arguments
import SelectorPath.Selector.Json
import SelectorPath.Warning

/-!
What the command prints. The selectors are compiled one after another in one session; a bad one
is reported and the others are still compiled.
-/

namespace SelectorPath.CommandLine

/-- What a run prints and its exit code. -/
structure Outcome where
  exitCode : Nat
  stdout : String
  stderr : String
  deriving DecidableEq, Repr

/-- The column of a byte position: the number of characters before it or, where it is inside
a character, the position itself. -/
def column (selector : String) (position : Nat) : Nat :=
  let position := min position (Text.byteLength selector.toList)
  (Text.charsBefore selector.toList position).getD position

/-- The report of an error, with a caret below the place. -/
def report (selector : String) (error : SelectorError) : String :=
  let blanks := String.ofList (List.replicate (column selector error.position) ' ')
  s!"\x1b[1m\x1b[31merror:\x1b[39m\x1b[0m {error.message}\n" ++
    s!"  {selector}\n" ++ s!"  {blanks}\x1b[31m^\x1b[39m\n"

/-- The warning about a member that was left out. -/
def skippedWarning (member : Skipped) : Warning :=
  ⟨"selector", s!"skipped selector `{member.text}`: {member.error.message}"⟩

/-- What is printed for a list that was read. -/
def rendered (settings : Settings) (list : SelectorList) : String :=
  if settings.tree then (Selector.listToJson list.selectors).render
  else SelectorList.xpath settings.options.anchor list.selectors

/-- A run between two selectors: the warnings that were given, whether a selector failed, and what
was printed. -/
structure Session where
  log : WarningLog
  failed : Bool
  stdout : String
  stderr : String
  deriving Repr

namespace Session

def start : Session := ⟨.empty, false, "", ""⟩

/-- The session after a selector. Each selector starts with a cleared log. -/
def next (settings : Settings) (session : Session) (selector : String) : Session :=
  let log := session.log.clear
  match SelectorList.ofText .standard settings.options selector with
  | .error e =>
    { session with log, failed := true, stderr := session.stderr ++ report selector e }
  | .ok list =>
    let (log, warnings) := log.warnAll (list.skipped.map skippedWarning)
    { session with
      log
      stdout := session.stdout ++ (rendered settings list ++ "\n")
      stderr := session.stderr ++ warnings }

/-- The outcome of a session that ends here. -/
def outcome (session : Session) : Outcome :=
  ⟨if session.failed then 1 else 0, session.stdout, session.stderr⟩

end Session

/-- The outcome for some selectors. -/
def runAll (settings : Settings) (selectors : List String) : Outcome :=
  (selectors.foldl (Session.next settings) .start).outcome

/-- The lines of some bytes. A line feed ends a line. -/
def byteLines : List UInt8 → List (List UInt8)
  | [] => []
  | byte :: rest =>
    if byte = 10 then [] :: byteLines rest
    else match byteLines rest with
      | [] => [[byte]]
      | line :: more => (byte :: line) :: more

/-- The selectors that some lines hold: their texts, trimmed, but for the empty ones. One line that
is no UTF-8 text makes all of them wrong. -/
def selectorsOfLines? : List (List UInt8) → Option (List String)
  | [] => some []
  | line :: rest => do
    let text ← String.fromUTF8? line.toByteArray
    let selector := Text.trim text.toList
    let selectors ← selectorsOfLines? rest
    return if selector.isEmpty then selectors else String.ofList selector :: selectors

/-- What is printed where the input is no UTF-8 text. -/
def inputError : Outcome :=
  ⟨1, "", "Error: failed to read selectors from stdin\n\nCaused by:\n" ++
    "    stream did not contain valid UTF-8\n"⟩

/-- The outcome of a run. The input is looked at only if no selector is given. -/
def run (settings : Settings) (selectors : List String) (input : ByteArray) : Outcome :=
  if selectors.isEmpty then
    match selectorsOfLines? (byteLines input.data.toList) with
    | none => inputError
    | some selectors => runAll settings selectors
  else runAll settings selectors

/-- The outcome of a request. -/
def Request.outcome (request : Request) (input : ByteArray) : Outcome :=
  match request with
  | .version => ⟨0, "cssxpath 0.1.0\n", ""⟩
  | .run settings selectors => CommandLine.run settings selectors input

end SelectorPath.CommandLine
