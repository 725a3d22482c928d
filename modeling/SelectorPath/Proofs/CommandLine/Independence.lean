import SelectorPath.Proofs.CommandLine.Input
import SelectorPath.Proofs.XPath.Parsing

/-!
Selectors on one command line do not act on each other. All of them go through one session, with
one log of warnings and one flag for failures, but what the session prints for a selector is what
it prints for that selector alone (`Session.next_eq`), so the outcome for many selectors is made of
the outcomes for each (`runAll_eq_joined`).
-/

namespace SelectorPath.CommandLine

/-- The outcome of a command line, if it is well formed. -/
def outcome? (arguments : List String) (input : ByteArray) : Option Outcome :=
  (request? arguments).map fun request => request.outcome input

/-- The outcomes of runs one after another, which fail if one of them does. -/
def Outcome.joined (outcomes : List Outcome) : Outcome where
  exitCode := if outcomes.any fun outcome => outcome.exitCode = 1 then 1 else 0
  stdout := String.join (outcomes.map Outcome.stdout)
  stderr := String.join (outcomes.map Outcome.stderr)

/-! ## Sessions -/

namespace Session

@[simp] theorem failed_start : start.failed = false := rfl

@[simp] theorem stdout_start : start.stdout = "" := rfl

@[simp] theorem stderr_start : start.stderr = "" := rfl

/-- What a session prints for a selector does not depend on what came before. -/
theorem next_eq (settings : Settings) (session : Session) (selector : String) :
    session.next settings selector =
      ⟨(start.next settings selector).log,
        session.failed || (start.next settings selector).failed,
        session.stdout ++ (start.next settings selector).stdout,
        session.stderr ++ (start.next settings selector).stderr⟩ := by
  unfold next
  cases SelectorList.ofText .standard settings.options selector with
  | error e => simp [start, WarningLog.clear]
  | ok list => simp [start, WarningLog.clear]

/-- A session over some selectors, by the sessions over each of them. -/
theorem foldl_next (settings : Settings) (selectors : List String) (session : Session) :
    ∃ log, selectors.foldl (next settings) session =
      ⟨log,
        session.failed || selectors.any fun selector => (start.next settings selector).failed,
        session.stdout ++
          String.join (selectors.map fun selector => (start.next settings selector).stdout),
        session.stderr ++
          String.join (selectors.map fun selector => (start.next settings selector).stderr)⟩ := by
  induction selectors generalizing session with
  | nil => exact ⟨session.log, by simp⟩
  | cons selector rest ih =>
    obtain ⟨log, hlog⟩ := ih (session.next settings selector)
    refine ⟨log, ?_⟩
    rw [List.foldl_cons, hlog, next_eq settings session selector]
    simp [String.append_assoc, Bool.or_assoc]

theorem exitCode_outcome (session : Session) :
    decide (session.outcome.exitCode = 1) = session.failed := by
  cases hfailed : session.failed <;> simp [outcome, hfailed]

end Session

theorem runAll_eq_joined (settings : Settings) (selectors : List String) :
    runAll settings selectors =
      .joined (selectors.map fun selector => runAll settings [selector]) := by
  obtain ⟨log, hlog⟩ := Session.foldl_next settings selectors .start
  simp only [Session.failed_start, Session.stdout_start, Session.stderr_start, Bool.false_or,
    String.empty_append] at hlog
  simp only [Outcome.joined, List.any_map, List.map_map, runAll, List.foldl_cons, List.foldl_nil,
    Function.comp_def, Session.exitCode_outcome, hlog]
  rfl

/-- A selector fails, or something is printed for it. -/
theorem runAll_singleton_cases (settings : Settings) (selector : String) :
    (∃ list, SelectorList.ofText .standard settings.options selector = .ok list) ∧
        (runAll settings [selector]).exitCode = 0 ∧ (runAll settings [selector]).stdout ≠ "" ∨
      (∃ e, SelectorList.ofText .standard settings.options selector = .error e) ∧
        (runAll settings [selector]).exitCode = 1 ∧ (runAll settings [selector]).stdout = "" := by
  cases hread : SelectorList.ofText .standard settings.options selector with
  | error e => simp [runAll, Session.next, Session.outcome, Session.start, hread]
  | ok list => simp [runAll, Session.next, Session.outcome, Session.start, hread]

/-! ## Arguments -/

/-- An argument that does not end the flags and needs no value in the next one. -/
theorem requestAfter_cons {argument : String}
    (h : argument ∉ ["--", "--version", "-V", "--max-len"]) (settings : Settings)
    (selectors rest : List String) :
    requestAfter settings selectors (argument :: rest) =
      if isSelector argument then requestAfter settings (selectors ++ [argument]) rest
      else (setArgument settings argument).bind
        fun settings => requestAfter settings selectors rest := by
  simp only [List.mem_cons, List.not_mem_nil, or_false, not_or] at h
  obtain ⟨hend, hversion, hshort, hlimit⟩ := h
  rw [requestAfter]
  · cases setArgument settings argument <;> rfl
  · exact hend
  · exact hversion
  · exact hshort
  · exact fun h _ => hlimit h
  · exact fun _ _ h _ => hlimit h

/-- After flags that ask for no selector, `--` brings exactly the selectors that follow. -/
theorem requestAfter_append {settings chosen : Settings} {selectors flags : List String}
    (h : requestAfter settings selectors (flags ++ ["--"]) = some (.run chosen []))
    (rest : List String) :
    requestAfter settings selectors (flags ++ "--" :: rest) = some (.run chosen rest) := by
  induction hn : flags.length using Nat.strongRecOn generalizing settings selectors flags with
  | ind n ih =>
  cases flags with
  | nil =>
    simp only [List.nil_append, requestAfter, List.append_nil, Option.some.injEq,
      Request.run.injEq] at h ⊢
    simp [h]
  | cons argument flags =>
    have hflags : flags.length < n := by simp [← hn]
    by_cases hother : argument ∈ ["--", "--version", "-V", "--max-len"]
    · simp only [List.mem_cons, List.not_mem_nil, or_false] at hother
      rcases hother with rfl | rfl | rfl | rfl
      · simp [requestAfter] at h
      · simp [requestAfter] at h
      · simp [requestAfter] at h
      · cases flags with
        | nil => simp [requestAfter, isSelector] at h
        | cons value flags =>
          simp only [List.cons_append, requestAfter] at h ⊢
          split at h
          · next hvalue =>
            rw [if_pos hvalue]
            cases hlimit : setLimit settings value.toList with
            | none => simp [hlimit] at h
            | some limited =>
              rw [hlimit] at h
              exact ih flags.length (by simp at hflags; omega) h rfl
          · contradiction
    · rw [List.cons_append, requestAfter_cons hother] at h ⊢
      split at h
      · next hselector =>
        rw [if_pos hselector]
        exact ih flags.length hflags h rfl
      · next hselector =>
        obtain ⟨changed, hchanged, h⟩ := Option.bind_eq_some_iff.mp h
        rw [if_neg hselector, hchanged, Option.bind_some]
        exact ih flags.length hflags h rfl

/-- The flags for some settings. -/
def Settings.flags (settings : Settings) : List String :=
  (if settings.document then ["--document"] else []) ++
    (if settings.skipInvalid then ["--skip-invalid"] else []) ++
    (if settings.tree then ["--ast"] else []) ++
    settings.maxLength.toList.flatMap fun limit => ["--max-len", toString limit]

theorem isSelector_toString (n : Nat) : isSelector (toString n) := by
  have htext : (toString n).toList = Nat.toDigits 10 n := Nat.toList_repr
  rw [isSelector, htext]
  split
  · next hdigits =>
    have hminus : XPath.Syntax.isNumeral '-' :=
      XPath.isNumeral_of_mem_toDigits (hdigits ▸ List.mem_cons_self)
    exact absurd hminus (by decide)
  · rfl

theorem setLimit_toString {settings : Settings} {n : Nat} (hnone : settings.maxLength = none)
    (hn : n ≤ greatestLimit) :
    setLimit settings (toString n).toList = some { settings with maxLength := some n } := by
  have htext : (toString n).toList = Nat.toDigits 10 n := Nat.toList_repr
  have hvalue : Text.naturalUpTo? greatestLimit (Nat.toDigits 10 n) = some n := by
    rw [Text.naturalUpTo?, XPath.natural?_toDigits]
    · exact if_pos hn
    · intro digits hdigits
      have hplus : XPath.Syntax.isNumeral '+' :=
        XPath.isNumeral_of_mem_toDigits (hdigits ▸ List.mem_cons_self)
      exact absurd hplus (by decide)
  rw [setLimit, htext, hvalue]
  simp [hnone]

/-- A flag without a value. -/
theorem requestAfter_flag {flag : String} (h : flag ∈ ["--document", "--skip-invalid", "--ast"])
    (settings : Settings) (selectors rest : List String) :
    requestAfter settings selectors (flag :: rest) =
      (setFlag settings flag).bind fun settings => requestAfter settings selectors rest := by
  simp only [List.mem_cons, List.not_mem_nil, or_false] at h
  rcases h with rfl | rfl | rfl
  all_goals
    rw [requestAfter_cons (by decide)]
    rfl

/-- Settings are what their flags ask for. -/
theorem requestAfter_flags {settings : Settings}
    (h : ∀ limit ∈ settings.maxLength, limit ≤ greatestLimit) (rest : List String) :
    requestAfter .standard [] (settings.flags ++ rest) = requestAfter settings [] rest := by
  obtain ⟨document, skipInvalid, tree, maxLength⟩ := settings
  have hdocument (rest : List String) :
      requestAfter .standard [] ((if document then ["--document"] else []) ++ rest) =
        requestAfter ⟨document, false, false, none⟩ [] rest := by
    cases document with
    | false => rfl
    | true => exact requestAfter_flag (by decide) _ _ _
  have hskip (rest : List String) :
      requestAfter ⟨document, false, false, none⟩ []
          ((if skipInvalid then ["--skip-invalid"] else []) ++ rest) =
        requestAfter ⟨document, skipInvalid, false, none⟩ [] rest := by
    cases skipInvalid with
    | false => rfl
    | true => exact requestAfter_flag (by decide) _ _ _
  have htree (rest : List String) :
      requestAfter ⟨document, skipInvalid, false, none⟩ []
          ((if tree then ["--ast"] else []) ++ rest) =
        requestAfter ⟨document, skipInvalid, tree, none⟩ [] rest := by
    cases tree with
    | false => rfl
    | true => exact requestAfter_flag (by decide) _ _ _
  have hlimit : requestAfter ⟨document, skipInvalid, tree, none⟩ []
      (maxLength.toList.flatMap (fun limit => ["--max-len", toString limit]) ++ rest) =
        requestAfter ⟨document, skipInvalid, tree, maxLength⟩ [] rest := by
    cases maxLength with
    | none => rfl
    | some limit =>
      change requestAfter _ [] ("--max-len" :: toString limit :: rest) = _
      rw [requestAfter, if_pos (isSelector_toString limit), setLimit_toString rfl (h limit rfl)]
  rw [Settings.flags, List.append_assoc, List.append_assoc, List.append_assoc, hdocument, hskip,
    htree, hlimit]

/-! ## Runs -/

theorem outcome?_of_selectors {arguments : List String} {settings : Settings}
    {selectors : List String} (h : request? arguments = some (.run settings selectors))
    (hne : selectors ≠ []) (input : ByteArray) :
    outcome? arguments input = some (runAll settings selectors) := by
  have hrun : run settings selectors input = runAll settings selectors :=
    if_neg (by simpa using hne)
  rw [outcome?, h, Option.map_some, Request.outcome, hrun]

theorem outcome?_of_input {arguments : List String} {settings : Settings}
    (h : request? arguments = some (.run settings [])) (input : ByteArray) :
    outcome? arguments input =
      some (((String.fromUTF8? input).map selectorsOfText).elim inputError (runAll settings)) := by
  have hrun : run settings [] input =
      ((String.fromUTF8? input).map selectorsOfText).elim inputError (runAll settings) := by
    rw [run, selectorsOfLines?_byteLines]
    cases String.fromUTF8? input <;> rfl
  rw [outcome?, h, Option.map_some, Request.outcome, hrun]

/-- Selectors are compiled independently. All settings can be asked for; for flags that ask for
them, each selector has an outcome of its own, something is printed for it exactly if it can be
read, and many selectors have their outcomes one after another. Without a selector, the lines of
the input are the selectors; an input that is no text has no output at all. -/
theorem outcome?_independent :
    (∀ settings : Settings, (∀ limit ∈ settings.maxLength, limit ≤ greatestLimit) →
      request? settings.flags = some (.run settings []) ∧
        request? (settings.flags ++ ["--"]) = some (.run settings [])) ∧
    ∀ (flags : List String) (settings : Settings),
      request? (flags ++ ["--"]) = some (.run settings []) →
      ∃ alone : String → Outcome,
        (∀ selector input,
          outcome? (flags ++ ["--", selector]) input = some (alone selector) ∧
          (alone selector).exitCode = (if (alone selector).stdout = "" then 1 else 0) ∧
          ((alone selector).stdout ≠ "" ↔
            ∃ list, SelectorList.ofText .standard settings.options selector = .ok list)) ∧
        (∀ selectors input, selectors ≠ [] →
          outcome? (flags ++ "--" :: selectors) input = some (.joined (selectors.map alone))) ∧
        ∀ arguments input, request? arguments = some (.run settings []) →
          (∀ text, String.fromUTF8? input = some text →
            outcome? arguments input =
              if selectorsOfText text = [] then some ⟨0, "", ""⟩
              else outcome? (flags ++ "--" :: selectorsOfText text) input) ∧
          (String.fromUTF8? input = none →
            ∃ outcome, outcome? arguments input = some outcome ∧ outcome.exitCode = 1 ∧
              outcome.stdout = "") := by
  constructor
  · intro settings h
    have hflags := requestAfter_flags h []
    rw [List.append_nil] at hflags
    exact ⟨hflags, requestAfter_flags h ["--"]⟩
  intro flags settings hflags
  have hselectors (selectors : List String) (hne : selectors ≠ []) (input : ByteArray) :
      outcome? (flags ++ "--" :: selectors) input = some (runAll settings selectors) :=
    outcome?_of_selectors (requestAfter_append hflags selectors) hne input
  refine ⟨fun selector => runAll settings [selector], ?_, ?_, ?_⟩
  · intro selector input
    refine ⟨hselectors [selector] (by simp) input, ?_⟩
    rcases runAll_singleton_cases settings selector with ⟨hread, hexit, hout⟩ | ⟨⟨e, he⟩, hexit, hout⟩
    · exact ⟨hexit.trans (if_neg hout).symm, fun _ => hread, fun _ => hout⟩
    · exact ⟨hexit.trans (if_pos hout).symm, fun h => absurd hout h, by simp [he]⟩
  · intro selectors input hne
    rw [hselectors selectors hne, runAll_eq_joined]
  · intro arguments input hnone
    rw [outcome?_of_input hnone]
    constructor
    · intro text htext
      rw [htext, Option.map_some, Option.elim_some]
      split
      · next hempty => rw [hempty]; rfl
      · next hne => rw [hselectors _ hne]
    · intro htext
      rw [htext]
      exact ⟨inputError, rfl, rfl, rfl⟩

/-- A selector that can be read but for one member, on both sides of one that cannot be read. -/
theorem outcome?_independent_repeated :
    request? (["--skip-invalid"] ++ ["--"]) = some (.run ⟨false, true, false, none⟩ []) ∧
      ∃ good bad : Outcome,
        outcome? ["--skip-invalid", "--", "p,:x"] .empty = some good ∧ good.stdout ≠ "" ∧
        outcome? ["--skip-invalid", "--", "!"] .empty = some bad ∧ bad.exitCode = 1 ∧
        outcome? ["--skip-invalid", "--", "p,:x", "!", "p,:x"] .empty =
          some (.joined [good, bad, good]) := by
  have hflags : request? (["--skip-invalid"] ++ ["--"]) =
      some (.run ⟨false, true, false, none⟩ []) := by decide
  have hgood : SelectorList.ofText .standard ⟨.context, .skipInvalid, none⟩ "p,:x" =
      .ok ⟨[⟨[⟨.descendant, ⟨some (.named "p"), []⟩⟩]⟩],
        [⟨":x", .unsupportedPseudoClass 2 "x"⟩]⟩ := by cbv
  have hbad : SelectorList.ofText .standard ⟨.context, .skipInvalid, none⟩ "!" =
      .error (.unexpected 0 .compound) := by cbv
  obtain ⟨alone, halone, hall, -⟩ := outcome?_independent.2 _ _ hflags
  obtain ⟨hrun, -, hprinted⟩ := halone "p,:x" .empty
  obtain ⟨hrun', hexit, hprinted'⟩ := halone "!" .empty
  have hempty : (alone "!").stdout = "" := by
    by_contra hne
    obtain ⟨list, hlist⟩ := hprinted'.mp hne
    exact absurd (hbad.symm.trans hlist) (by simp)
  exact ⟨hflags, alone "p,:x", alone "!", hrun, hprinted.mpr ⟨_, hgood⟩, hrun',
    hexit.trans (if_pos hempty), hall ["p,:x", "!", "p,:x"] .empty (by simp)⟩

end SelectorPath.CommandLine
