/-!
Warnings that are given once. A log holds what was warned of; the same component and
message are not printed again before the log is cleared.
-/

namespace SelectorPath

structure Warning where
  component : String
  message : String
  deriving DecidableEq, Repr

/-- The line for a warning, in yellow. -/
def Warning.line (w : Warning) : String :=
  s!"\x1b[33m[cssxpath {w.component}] ⚠ {w.message}\x1b[39m\n"

/-- The warnings given since the log was last cleared, the latest first. -/
structure WarningLog where
  given : List Warning
  deriving Repr

namespace WarningLog

def empty : WarningLog := ⟨[]⟩

/-- The log with nothing in it any more. -/
def clear (_ : WarningLog) : WarningLog := empty

def has (log : WarningLog) (w : Warning) : Bool := log.given.contains w

/-- The log after a warning, and what is printed. -/
def warn (log : WarningLog) (w : Warning) : WarningLog × String :=
  if log.has w then (log, "") else (⟨w :: log.given⟩, w.line)

/-- The log after some warnings, and what is printed. -/
def warnAll (log : WarningLog) : List Warning → WarningLog × String
  | [] => (log, "")
  | w :: rest =>
    let (log, line) := log.warn w
    let (log, lines) := log.warnAll rest
    (log, line ++ lines)

end WarningLog

end SelectorPath
