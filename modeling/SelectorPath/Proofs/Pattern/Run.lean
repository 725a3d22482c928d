import Mathlib
import SelectorPath.Pattern.Match

/-!
Runs of the patterns that tokens are made of: a set, a sequence, a greedy repetition of a
set, and the inside of a quoted text. Each rule gives the run in closed form, so nothing
after this module looks at tasks and frontiers.
-/

namespace SelectorPath.Pattern

theorem run_cons (task : Task) (c : Char) (text : List Char) :
    run [task] (c :: text) =
      match run ((frontier [task]).after c) text with
      | some (token, rest) => some (c :: token, rest)
      | none => if (frontier [task]).complete then some ([], c :: text) else none := rfl

@[simp] theorem run_no_tasks (text : List Char) : run [] text = none := by
  cases text <;> rfl

@[simp] theorem run_done (text : List Char) : run [[]] text = some ([], text) := by
  cases text with
  | nil => rfl
  | cons c text => simp [run_cons, frontier, exploreTask, Frontier.after, Frontier.start]

theorem run_seq (p q : Pattern) (later : Task) (text : List Char) :
    run [.seq p q :: later] text = run [p :: q :: later] text := by
  have h : frontier [.seq p q :: later] = frontier [p :: q :: later] := rfl
  cases text with
  | nil => simp only [run, h]
  | cons c text => simp only [run_cons, h]

/-! ## Sets -/

theorem run_one_nil (set : CharSet) (later : Task) : run [.one set :: later] [] = none := by
  simp [run, frontier, exploreTask, explore, Frontier.enter, Frontier.start]

theorem run_one_cons (set : CharSet) (later : Task) (c : Char) (text : List Char) :
    run [.one set :: later] (c :: text) =
      if set.contains c then (run [later] text).map fun (token, rest) => (c :: token, rest)
      else none := by
  have hf : (frontier [.one set :: later]).after c =
      if set.contains c then [later] else [] := by
    by_cases h : set.contains c <;>
      simp [frontier, exploreTask, explore, Frontier.enter, Frontier.start, Frontier.after, h]
  have hn : (frontier [.one set :: later]).complete = false := by
    simp [frontier, exploreTask, explore, Frontier.enter, Frontier.start]
  rw [run_cons, hf, hn]
  by_cases h : set.contains c
  · simp only [h, ↓reduceIte]
    cases run [later] text <;> rfl
  · simp [h]

/-! ## Repetitions of a set -/

/-- The tasks of a greedy repetition are told apart by their sizes, so that each is entered. -/
private theorem frontier_loop_one (set : CharSet) (later : Task) :
    frontier [.loop true (.one set) :: later] =
      exploreTask later
        ⟨[(Task.size (.one set :: .loop true (.one set) :: later),
            .one set :: .loop true (.one set) :: later),
          (Task.size (.loop true (.one set) :: later), .loop true (.one set) :: later)],
         [(set, .loop true (.one set) :: later)], false⟩ := by
  simp [frontier, exploreTask, explore, Frontier.enter, Frontier.start, Task.size, size]

/-- A greedy repetition at the end takes all characters of its set. -/
theorem run_loop_one (set : CharSet) (text : List Char) :
    run [[.loop true (.one set)]] text =
      some (text.takeWhile set.contains, text.dropWhile set.contains) := by
  induction text with
  | nil => simp [run, frontier_loop_one, exploreTask]
  | cons c text ih =>
    by_cases h : set.contains c <;>
      simp [run_cons, frontier_loop_one, exploreTask, Frontier.after, h, ih]

/-- A greedy repetition before a set that has no character in common with its own. -/
theorem run_loop_before (set final : CharSet)
    (hd : ∀ c, set.contains c → final.contains c = false) (text : List Char) :
    run [[.loop true (.one set), .one final]] text =
      match text.dropWhile set.contains with
      | [] => none
      | c :: rest =>
        if final.contains c then some (text.takeWhile set.contains ++ [c], rest) else none := by
  have hf : ∀ c, (frontier [[.loop true (.one set), .one final]]).after c =
      if set.contains c then [[.loop true (.one set), .one final]]
      else if final.contains c then [[]] else [] := by
    intro c
    by_cases hs : set.contains c
    · simp [frontier_loop_one, exploreTask, explore, Frontier.enter, Frontier.after, Task.size,
        size, hs, hd c hs]
    · by_cases hc : final.contains c <;>
        simp [frontier_loop_one, exploreTask, explore, Frontier.enter, Frontier.after, Task.size,
          size, hs, hc]
  have hn : (frontier [[.loop true (.one set), .one final]]).complete = false := by
    simp [frontier_loop_one, exploreTask, explore, Frontier.enter, Task.size, size]
  induction text with
  | nil => simp [run, hn]
  | cons c text ih =>
    rw [run_cons, hf, hn]
    by_cases hs : set.contains c
    · simp only [hs, ↓reduceIte, ih, List.dropWhile_cons_of_pos, List.takeWhile_cons_of_pos]
      cases text.dropWhile set.contains with
      | nil => rfl
      | cons d rest => by_cases hc : final.contains d <;> simp [hc]
    · by_cases hc : final.contains c <;> simp [hs, hc]

/-- An optional set before a set that has no character in common with it. -/
theorem run_optional_before (set final : CharSet)
    (hd : ∀ c, set.contains c → final.contains c = false) (c : Char) (text : List Char) :
    run [[.alt (.one set) .empty, .one final]] (c :: text) =
      if set.contains c then
        (run [[.one final]] text).map fun (token, rest) => (c :: token, rest)
      else if final.contains c then some ([c], text) else none := by
  have hn : (frontier [[.alt (.one set) .empty, .one final]]).complete = false := by
    simp [frontier, exploreTask, explore, Frontier.enter, Frontier.start, Task.size, size]
  have hf : (frontier [[.alt (.one set) .empty, .one final]]).after c =
      if set.contains c then [[.one final]] else if final.contains c then [[]] else [] := by
    by_cases hs : set.contains c
    · simp [frontier, exploreTask, explore, Frontier.enter, Frontier.start, Frontier.after,
        Task.size, size, hs, hd c hs]
    · by_cases hc : final.contains c <;>
        simp [frontier, exploreTask, explore, Frontier.enter, Frontier.start, Frontier.after,
          Task.size, size, hs, hc]
  rw [run_cons, hf, hn]
  by_cases hs : set.contains c
  · simp only [hs, ↓reduceIte]
    cases run [[.one final]] text <;> rfl
  · by_cases hc : final.contains c <;> simp [hs, hc]

end SelectorPath.Pattern
