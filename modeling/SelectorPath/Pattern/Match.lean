import SelectorPath.Pattern.Basic

/-!
How a pattern matches at the start of a text. `run` walks through the text once with a list
of tasks, the preferred ones first. At each place the tasks are entered in this order, down
to the next characters that they can take. A task is entered at most once at a place, since
a second time brings nothing that the first did not, and this also ends a loop whose round
takes nothing.

`take?` is the match itself, and `take?_sound` says that it takes a part of the text that is
not empty.
-/

namespace SelectorPath.Pattern

/-- What is left to be matched: patterns, one after the other. -/
abbrev Task := List Pattern

def Task.size (task : Task) : Nat := task.foldr (fun p size => p.size + size) 0

/-- What the tasks at one place of the text have led to so far. -/
structure Frontier where
  /-- The tasks entered at this place, each with its size, which tells most of them apart at
  once. -/
  entered : List (Nat × Task)
  /-- The characters that can be taken next, in order of preference, each with the task that
  is left then. -/
  moves : List (CharSet × Task)
  /-- Whether a match can end here. All that is less preferred is left out then. -/
  complete : Bool

namespace Frontier

def start : Frontier := ⟨[], [], false⟩

/-- Enters a task, if that can still bring something. -/
def enter (task : Task) (explore : Frontier → Frontier) (f : Frontier) : Frontier :=
  let entry := (task.size, task)
  if f.complete || f.entered.contains entry then f
  else explore { f with entered := entry :: f.entered }

/-- The tasks that are left after a character is taken. -/
def after (f : Frontier) (c : Char) : List Task :=
  f.moves.filterMap fun (set, task) => if set.contains c then some task else none

end Frontier

/-- Explores a pattern that stands before the task `later`; where the pattern can end,
`finish` goes on. The end of a round leads back to its loop, which was entered already. -/
def explore : Pattern → Task → (Frontier → Frontier) → Frontier → Frontier
  | .empty, _, finish => finish
  | .one set, later, _ =>
    .enter (.one set :: later) fun f => { f with moves := f.moves ++ [(set, later)] }
  | .seq p q, later, finish => explore p (q :: later) (explore q later finish)
  | .alt p q, later, finish =>
    .enter (.alt p q :: later) fun f => explore q later finish (explore p later finish f)
  | .loop greedy p, later, finish =>
    .enter (.loop greedy p :: later) fun f =>
      if greedy then finish (explore p (.loop greedy p :: later) id f)
      else explore p (.loop greedy p :: later) id (finish f)

/-- Explores the patterns of a task. A match ends where none is left. -/
def exploreTask : Task → Frontier → Frontier
  | [], f => { f with complete := true }
  | p :: later, f => explore p later (exploreTask later) f

/-- What some tasks lead to at one place of the text. -/
def frontier (tasks : List Task) : Frontier :=
  tasks.foldl (fun f task => exploreTask task f) .start

/-- The preferred match of some tasks: what it takes and what it leaves. A match that goes
on with the next character is preferred to one that ends here. -/
def run (tasks : List Task) : List Char → Option (List Char × List Char)
  | [] => if (frontier tasks).complete then some ([], []) else none
  | c :: text =>
    if tasks.isEmpty then none
    else
      let here := frontier tasks
      match run (here.after c) text with
      | some (token, rest) => some (c :: token, rest)
      | none => if here.complete then some ([], c :: text) else none

/-- The preferred match at the start of a text: what it takes and what it leaves. A match
that takes nothing does not count. -/
def take? (p : Pattern) (text : List Char) : Option (List Char × List Char) :=
  (run [[p]] text).filter fun (token, _) => !token.isEmpty

theorem run_append {tasks : List Task} {text token rest : List Char}
    (h : run tasks text = some (token, rest)) : token ++ rest = text := by
  induction text generalizing tasks token rest with
  | nil =>
    unfold run at h
    split at h
    · simp only [Option.some.injEq, Prod.mk.injEq] at h
      obtain ⟨rfl, rfl⟩ := h
      rfl
    · simp at h
  | cons c text ih =>
    unfold run at h
    split at h
    · simp at h
    · dsimp only at h
      split at h
      · next hrun =>
        simp only [Option.some.injEq, Prod.mk.injEq] at h
        obtain ⟨rfl, rfl⟩ := h
        rw [List.cons_append, ih hrun]
      · split at h
        · simp only [Option.some.injEq, Prod.mk.injEq] at h
          obtain ⟨rfl, rfl⟩ := h
          rfl
        · simp at h

theorem take?_sound {p : Pattern} {text token rest : List Char}
    (h : p.take? text = some (token, rest)) : token ≠ [] ∧ token ++ rest = text := by
  unfold take? at h
  rw [Option.filter_eq_some_iff] at h
  exact ⟨by simpa using h.2, run_append h.1⟩

end SelectorPath.Pattern
