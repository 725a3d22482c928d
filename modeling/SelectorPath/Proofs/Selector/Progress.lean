import SelectorPath.Proofs.Selector.Segments
import SelectorPath.Proofs.Token.Loops

/-!
Readers go on, whatever the lexicon is. A token is not empty, and every reader that succeeds has
taken one; so all loops end, and as each level of negations is read by a reader of its own, there
are never more of them than levels (`Lexicon.GoesOn`).
-/

namespace SelectorPath

open Text Lexicon

/-- What a reader reads is not empty. -/
def Reader.Progresses {α : Type} (read : Reader α) : Prop :=
  ∀ c a d, read c = .ok (a, d) → c.Before d

namespace Lexicon

variable {lexicon : Lexicon} {kind : TokenKind} {c d : Cursor}

theorem token_before {text : List Char} (h : lexicon.token kind c = some (text, d)) :
    c.Before d := by
  obtain ⟨hrun, htakes⟩ := token_eq_some_iff.mp h
  exact ⟨text, ((lexicon kind).sound hrun).1, htakes⟩

theorem skip_notAfter (lexicon : Lexicon) (kind : TokenKind) (c : Cursor) :
    c.NotAfter (lexicon.skip kind c) := by
  unfold skip
  cases htoken : lexicon.token kind c with
  | none => exact .refl c
  | some found => exact (token_before htoken).notAfter

theorem expect_before {expected : Expectation} (h : lexicon.expect kind expected c = .ok d) :
    c.Before d := by
  obtain ⟨text, htoken⟩ := expect_eq_ok_iff.mp h
  exact token_before htoken

end Lexicon

variable {lexicon : Lexicon} {c d : Cursor}

/-! ## Formulas -/

namespace Formula

theorem readConstant_notAfter {coefficient : Int64} {formula : Formula}
    (h : readConstant lexicon coefficient c = .ok (formula, d)) : c.NotAfter d := by
  unfold readConstant at h
  split at h
  · cases h
    exact .refl c
  · next sign after hsign =>
    dsimp only at h
    split at h
    · cases h
    · next digits last hdigits =>
      obtain ⟨constant, -, h⟩ := bind_eq_ok_iff.mp h
      cases h
      have hprobe := (skip_notAfter lexicon .spaces c).trans_before (token_before hsign)
      exact hprobe.notAfter.trans ((skip_notAfter lexicon .spaces after).trans
        (token_before hdigits).notAfter)

theorem readSign_notAfter (lexicon : Lexicon) (c : Cursor) : c.NotAfter (readSign lexicon c).2 := by
  unfold readSign
  cases hsign : lexicon.token .sign c with
  | none => exact .refl c
  | some found => exact (token_before hsign).notAfter

theorem readDigits_notAfter (lexicon : Lexicon) (c : Cursor) :
    c.NotAfter (readDigits lexicon c).2 := by
  unfold readDigits
  cases hdigits : lexicon.token .number c with
  | none => exact .refl c
  | some found => exact (token_before hdigits).notAfter

theorem readLinear_notAfter {formula : Formula} (h : readLinear lexicon c = .ok (formula, d)) :
    c.NotAfter d := by
  have hstart := (readSign_notAfter lexicon c).trans
    (readDigits_notAfter lexicon (readSign lexicon c).2)
  unfold readLinear at h
  dsimp only at h
  split at h
  · cases h
  · obtain ⟨constant, -, h⟩ := bind_eq_ok_iff.mp h
    cases h
    exact hstart
  · next hn _ => exact hstart.trans ((token_before hn).notAfter.trans (readConstant_notAfter h))
  · next hn _ =>
    obtain ⟨coefficient, -, h⟩ := bind_eq_ok_iff.mp h
    exact hstart.trans ((token_before hn).notAfter.trans (readConstant_notAfter h))

theorem readBody_notAfter {formula : Formula} (h : readBody lexicon c = .ok (formula, d)) :
    c.NotAfter d := by
  unfold readBody at h
  split at h
  · next heven =>
    cases h
    exact (token_before heven).notAfter
  · split at h
    · next hodd =>
      cases h
      exact (token_before hodd).notAfter
    · exact readLinear_notAfter h

theorem read_progresses (lexicon : Lexicon) : Reader.Progresses (read lexicon) := by
  intro c formula d h
  obtain ⟨first, hopening, h⟩ := bind_eq_ok_iff.mp h
  obtain ⟨⟨body, last⟩, hbody, h⟩ := bind_eq_ok_iff.mp h
  obtain ⟨after, hclosing, h⟩ := bind_eq_ok_iff.mp h
  cases h
  have hinside := (skip_notAfter lexicon .spaces first).trans (readBody_notAfter hbody)
  have hend := (skip_notAfter lexicon .spaces last).trans_before (expect_before hclosing)
  exact (expect_before hopening).trans_notAfter (hinside.trans hend.notAfter)

end Formula

/-! ## Attribute tests -/

namespace AttributeTest

theorem readValue_before {value : String} (h : readValue lexicon c = .ok (value, d)) :
    c.Before d := by
  unfold readValue at h
  split at h
  · next hquoted =>
    cases h
    exact token_before hquoted
  · split at h
    · next hname =>
      cases h
      exact token_before hname
    · cases h

theorem readComparison_before {name : String} {test : AttributeTest}
    (h : readComparison lexicon name c = .ok (test, d)) : c.Before d := by
  unfold readComparison at h
  split at h
  · next hclosing =>
    cases h
    exact token_before hclosing
  · split at h
    · cases h
    · next text after hoperator =>
      split at h
      · cases h
      · obtain ⟨⟨value, last⟩, hvalue, h⟩ := bind_eq_ok_iff.mp h
        obtain ⟨final, hclosing, h⟩ := bind_eq_ok_iff.mp h
        cases h
        have hinside := (skip_notAfter lexicon .spaces after).trans_before (readValue_before hvalue)
        have hend := (skip_notAfter lexicon .spaces last).trans_before (expect_before hclosing)
        exact (token_before hoperator).trans_notAfter (hinside.notAfter.trans hend.notAfter)

theorem read_progresses (lexicon : Lexicon) : Reader.Progresses (read lexicon) := by
  intro c test d h
  obtain ⟨first, hopening, h⟩ := bind_eq_ok_iff.mp h
  dsimp only at h
  split at h
  · cases h
  · next name after hname =>
    have hstart := (expect_before hopening).trans_notAfter (skip_notAfter lexicon .spaces first)
    have hend := (skip_notAfter lexicon .spaces after).trans_before (readComparison_before h)
    exact hstart.trans_notAfter ((token_before hname).notAfter.trans hend.notAfter)

end AttributeTest

/-! ## Qualifiers -/

namespace Qualifier

theorem readNegation_before {argument : Reader Compound} (hargument : argument.Progresses)
    {q : Qualifier} (h : readNegation lexicon argument c = .ok (q, d)) : c.Before d := by
  obtain ⟨first, hopening, h⟩ := bind_eq_ok_iff.mp h
  obtain ⟨⟨compound, last⟩, hcompound, h⟩ := bind_eq_ok_iff.mp h
  obtain ⟨after, hclosing, h⟩ := bind_eq_ok_iff.mp h
  cases h
  have hend := (skip_notAfter lexicon .spaces last).trans_before (expect_before hclosing)
  exact (expect_before hopening).trans_notAfter
    ((hargument _ _ _ hcompound).notAfter.trans hend.notAfter)

variable {argument : Option (Reader Compound)}

theorem readPseudoClass_before (hargument : ∀ read ∈ argument, Reader.Progresses read)
    {q : Qualifier} (h : readPseudoClass lexicon argument c = .ok (q, d)) : c.Before d := by
  unfold readPseudoClass at h
  split at h
  · cases h
  · next text after htoken =>
    have hstart := token_before htoken
    split at h
    · cases h
    · cases h
      exact hstart
    · obtain ⟨⟨formula, last⟩, hformula, h⟩ := bind_eq_ok_iff.mp h
      cases h
      exact hstart.trans_notAfter (Formula.read_progresses lexicon _ _ _ hformula).notAfter
    · split at h
      · cases h
      · next read =>
        exact hstart.trans_notAfter (readNegation_before (hargument read rfl) h).notAfter

theorem read?_before (hargument : ∀ read ∈ argument, Reader.Progresses read) {q : Qualifier}
    (h : read? lexicon argument c = .ok (some (q, d))) : c.Before d := by
  unfold read? at h
  split at h
  · next hclass =>
    cases h
    exact token_before hclass
  · split at h
    · next hid =>
      cases h
      exact token_before hid
    · split at h
      · obtain ⟨found, hread, hfound⟩ := map_eq_ok_iff.mp h
        cases hfound
        exact readPseudoClass_before hargument hread
      · split at h
        · obtain ⟨⟨test, after⟩, hread, hfound⟩ := map_eq_ok_iff.mp h
          cases hfound
          exact AttributeTest.read_progresses lexicon _ _ _ hread
        · cases h

/-- Each round of the loop over qualifiers takes one. -/
theorem round_before (hargument : ∀ read ∈ argument, Reader.Progresses read) (c d : Cursor)
    (h : Cursor.WhileRound (read? lexicon argument) c d) : c.Before d := by
  obtain ⟨q, hq⟩ := h
  exact read?_before hargument hq

end Qualifier

/-! ## Compounds -/

namespace Compound

/-- An element test is not empty, or nothing is read. -/
theorem readElement_cases (lexicon : Lexicon) (c : Cursor) :
    c.Before (readElement lexicon c).2 ∨ readElement lexicon c = (none, c) := by
  unfold readElement
  cases huniversal : lexicon.token .universal c with
  | some found => exact .inl (token_before huniversal)
  | none =>
    cases hname : lexicon.token .element c with
    | some found => exact .inl (token_before hname)
    | none => exact .inr rfl

/-- The place after the element test of a compound, where the loop over its qualifiers starts. -/
def afterElement (lexicon : Lexicon) (c : Cursor) : Cursor :=
  (readElement lexicon (lexicon.skip .spaces c)).2

/-- The name that holds in the negations of a compound. -/
def innerName (lexicon : Lexicon) (enclosing : Option String) (c : Cursor) : Option String :=
  (ElementTest.name? (readElement lexicon (lexicon.skip .spaces c)).1).or enclosing

/-- The item of the loop over the qualifiers of a compound. -/
def item (lexicon : Lexicon) (argument : Option String → Option (Reader Compound))
    (enclosing : Option String) (c : Cursor) :
    Cursor → Except SelectorError (Option (Qualifier × Cursor)) :=
  Qualifier.read? lexicon (argument (innerName lexicon enclosing c))

theorem readWith_eq (lexicon : Lexicon) (argument : Option String → Option (Reader Compound))
    (enclosing : Option String) (c : Cursor) : readWith lexicon argument enclosing c = (do
      let found ← (afterElement lexicon c).readWhile (item lexicon argument enclosing c)
      let compound ← check (lexicon.skip .spaces c) (readElement lexicon (lexicon.skip .spaces c)).1
        (innerName lexicon enclosing c) found.1
      return (compound, found.2)) := rfl

theorem readWith_progresses {argument : Option String → Option (Reader Compound)}
    (hargument : ∀ name, ∀ read ∈ argument name, Reader.Progresses read)
    (enclosing : Option String) : Reader.Progresses (readWith lexicon argument enclosing) := by
  intro c compound d h
  rw [readWith_eq] at h
  obtain ⟨⟨qualifiers, last⟩, hqualifiers, h⟩ := bind_eq_ok_iff.mp h
  obtain ⟨checked, hcheck, h⟩ := bind_eq_ok_iff.mp h
  cases h
  obtain ⟨rfl, hnonempty, -⟩ := check_eq_ok_iff.mp hcheck
  have hround : ∀ p q, Cursor.WhileRound (item lexicon argument enclosing c) p q → p.Before q :=
    Qualifier.round_before (hargument _)
  obtain ⟨hrounds, -⟩ := (Cursor.whileEnds hround _).read _ _ hqualifiers
  have hloop := hrounds.notAfter hround
  apply (skip_notAfter lexicon .spaces c).trans_before
  rcases readElement_cases lexicon (lexicon.skip .spaces c) with helement | hnone
  · exact helement.trans_notAfter hloop
  · -- Without an element test there is a first qualifier.
    have hlength : 0 < qualifiers.length := by
      simpa [Nonempty, hnone, List.length_pos_iff] using hnonempty
    have hleft := hrounds.left_le hround
    rw [afterElement, hnone] at hloop hleft
    apply hloop.before_of_left_lt
    omega

theorem readNested_progresses (lexicon : Lexicon) (levels : Nat) (enclosing : Option String) :
    Reader.Progresses (readNested lexicon levels enclosing) := by
  induction levels generalizing enclosing with
  | zero =>
    apply readWith_progresses
    simp
  | succ levels ih =>
    apply readWith_progresses
    rintro name read hread
    cases hread
    exact ih name

theorem argument?_progresses (lexicon : Lexicon) (levels : Nat) (name : Option String) :
    ∀ read ∈ argument? lexicon levels name, Reader.Progresses read := by
  intro read hread
  cases levels with
  | zero => cases hread
  | succ levels =>
    cases hread
    exact readNested_progresses lexicon levels name

theorem read_progresses (lexicon : Lexicon) : Reader.Progresses (read lexicon) :=
  readNested_progresses lexicon maxNegationDepth none

end Compound

/-! ## Negations -/

/-- A negation stands at a place, and its argument starts at `d`. -/
def Qualifier.Opens (lexicon : Lexicon) (c d : Cursor) : Prop :=
  lexicon.token .className c = none ∧ lexicon.token .id c = none ∧
    ∃ text after, lexicon.token .pseudoClass c = some (text, after) ∧
      PseudoClass.ofName? (String.ofList (text.tail.map Char.toLower)) = some .negation ∧
      lexicon.expect .leftParen .negationOpening after = .ok d

/-- Of a reader for arguments, only what it reads where one starts counts. -/
theorem Qualifier.read?_congr {argument argument' : Option (Reader Compound)}
    (hsome : argument.isSome = argument'.isSome)
    (h : ∀ d, Opens lexicon c d → ∀ read ∈ argument, ∀ read' ∈ argument', read d = read' d) :
    read? lexicon argument c = read? lexicon argument' c := by
  unfold read?
  cases hclass : lexicon.token .className c with
  | some found => rfl
  | none =>
    cases hid : lexicon.token .id c with
    | some found => rfl
    | none =>
      have hpseudo : readPseudoClass lexicon argument c = readPseudoClass lexicon argument' c := by
        unfold readPseudoClass
        split
        · rfl
        · next text after htoken =>
          split
          · rfl
          · rfl
          · rfl
          · next hname =>
            cases argument with
            | none =>
              cases argument' with
              | none => rfl
              | some read' => cases hsome
            | some read =>
              cases argument' with
              | none => cases hsome
              | some read' =>
                simp only [readNegation]
                cases hopening : lexicon.expect .leftParen .negationOpening after with
                | error e => rfl
                | ok d =>
                  have hread := h d ⟨hclass, hid, text, after, htoken, hname, hopening⟩ read rfl
                    read' rfl
                  simp only [bind, Except.bind, hread]
      rw [hpseudo]

namespace Compound

/-- While a compound is read at a place, the argument of a negation is read at `d`. -/
def Enters (lexicon : Lexicon) (argument : Option String → Option (Reader Compound))
    (enclosing : Option String) (c d : Cursor) : Prop :=
  ∃ n place, Cursor.After (Cursor.WhileRound (item lexicon argument enclosing c)) n
    (afterElement lexicon c) place ∧ Qualifier.Opens lexicon place d

/-- Reading a compound comes to arguments of negations in no other way. -/
theorem readWith_congr {argument argument' : Option String → Option (Reader Compound)}
    {enclosing : Option String} (hsome : ∀ name, (argument name).isSome = (argument' name).isSome)
    (h : ∀ d, Enters lexicon argument enclosing c d →
      ∀ read ∈ argument (innerName lexicon enclosing c),
      ∀ read' ∈ argument' (innerName lexicon enclosing c), read d = read' d) :
    readWith lexicon argument enclosing c = readWith lexicon argument' enclosing c := by
  have hitem : ∀ n place, Cursor.After (Cursor.WhileRound (item lexicon argument enclosing c)) n
      (afterElement lexicon c) place →
      item lexicon argument enclosing c place = item lexicon argument' enclosing c place := by
    intro n place hafter
    apply Qualifier.read?_congr (hsome _)
    intro d hopens
    exact h d ⟨n, place, hafter, hopens⟩
  rw [readWith_eq, readWith_eq, Cursor.readWhile_congr hitem]

/-- The calls of the reader of compounds that are made while it reads at `c` with some levels and a
name around it: how many negations are around a call, with how many levels and which name it is
made, and where. -/
inductive Calls (lexicon : Lexicon) (levels : Nat) (enclosing : Option String) (c : Cursor) :
    (depth rest : Nat) → (name : Option String) → Cursor → Prop
  | outermost : Calls lexicon levels enclosing c 0 levels enclosing c
  | argument {depth rest : Nat} {name : Option String} {p d : Cursor} :
      Calls lexicon levels enclosing c depth (rest + 1) name p →
      Enters lexicon (argument? lexicon (rest + 1)) name p d →
      Calls lexicon levels enclosing c (depth + 1) rest (innerName lexicon name p) d

theorem Enters.before {levels : Nat} {enclosing : Option String}
    (h : Enters lexicon (argument? lexicon levels) enclosing c d) : c.Before d := by
  obtain ⟨n, place, hafter, -, -, text, after, htoken, -, hopening⟩ := h
  have hround : ∀ p q, Cursor.WhileRound (item lexicon (argument? lexicon levels) enclosing c) p q →
      p.Before q := Qualifier.round_before (argument?_progresses lexicon levels _)
  have helement : (lexicon.skip .spaces c).NotAfter (afterElement lexicon c) := by
    rcases readElement_cases lexicon (lexicon.skip .spaces c) with hbefore | hnone
    · exact hbefore.notAfter
    · rw [afterElement, hnone]
      exact .refl _
  have hplace := (skip_notAfter lexicon .spaces c).trans (helement.trans (hafter.notAfter hround))
  exact hplace.trans_before ((token_before htoken).trans_notAfter (expect_before hopening).notAfter)

/-- Each call has one level less, and stands behind the one that it is made from. -/
theorem Calls.depth_add {levels depth rest : Nat} {enclosing name : Option String}
    (h : Calls lexicon levels enclosing c depth rest name d) :
    depth + rest = levels ∧ depth + d.left ≤ c.left ∧ c.NotAfter d := by
  induction h with
  | outermost => exact ⟨by omega, by omega, .refl c⟩
  | argument _ henters ih =>
    obtain ⟨hdepth, hleft, hplace⟩ := ih
    have hlt := henters.before.left_lt
    exact ⟨by omega, by omega, hplace.trans henters.before.notAfter⟩

end Compound

/-! ## Selectors -/

theorem Combinator.read?_before {combinator : Combinator}
    (h : read? lexicon c = some (combinator, d)) : c.Before d := by
  unfold read? at h
  dsimp only at h
  split at h
  · next found hsigned =>
    cases h
    obtain ⟨sign, -, hsign⟩ := List.exists_of_findSome?_eq_some hsigned
    obtain ⟨found, htoken, hfound⟩ := Option.map_eq_some_iff.mp hsign
    cases hfound
    exact token_before htoken
  · split at h
    · cases h
    · next hspaces =>
      split at h
      · cases h
      · cases h
        exact token_before hspaces

theorem Step.round_before (c d : Cursor) (h : Cursor.WhileRound (read? lexicon) c d) :
    c.Before d := by
  obtain ⟨step, hstep⟩ := h
  unfold read? at hstep
  split at hstep
  · cases hstep
  · next combinator after hcombinator =>
    obtain ⟨⟨compound, last⟩, hread, hfound⟩ := map_eq_ok_iff.mp hstep
    cases hfound
    exact (Combinator.read?_before hcombinator).trans_notAfter
      (Compound.read_progresses lexicon _ _ _ hread).notAfter

/-- A compound and the steps after it are not empty. -/
theorem Step.readWhile_before {first : Cursor} {compound : Compound} {steps : List (Nat × Step)}
    (hcompound : Compound.read lexicon c = .ok (compound, first))
    (hsteps : first.readWhile (read? lexicon) = .ok (steps, d)) : c.Before d := by
  obtain ⟨hrounds, -⟩ := (Cursor.whileEnds round_before first).read _ _ hsteps
  exact (Compound.read_progresses lexicon _ _ _ hcompound).trans_notAfter
    (hrounds.notAfter round_before)

theorem Selector.read_progresses (lexicon : Lexicon) : Reader.Progresses (read lexicon) := by
  intro c selector d h
  unfold read at h
  cases hsign : lexicon.token .parentOf c with
  | none =>
    rw [hsign] at h
    obtain ⟨⟨compound, first⟩, hcompound, h⟩ := bind_eq_ok_iff.mp h
    obtain ⟨⟨steps, last⟩, hsteps, h⟩ := bind_eq_ok_iff.mp h
    cases h
    exact Step.readWhile_before hcompound hsteps
  | some found =>
    rw [hsign] at h
    obtain ⟨⟨compound, first⟩, hcompound, h⟩ := bind_eq_ok_iff.mp h
    obtain ⟨⟨steps, last⟩, hsteps, h⟩ := bind_eq_ok_iff.mp h
    cases h
    exact (token_before hsign).trans_notAfter (Step.readWhile_before hcompound hsteps).notAfter

/-! ## Lists -/

namespace SelectorList

theorem skipMember_notAfter (c : Cursor) (error : SelectorError) :
    c.NotAfter (skipMember c error).2 :=
  ⟨_, .advance c (splitAtComma_append 0 none c.rest).symm⟩

/-- A member that is kept is not empty. -/
theorem readMember_place {policy : ListPolicy} {member : Member}
    (h : readMember lexicon policy c = .ok (member, d)) :
    c.NotAfter d ∧ (member.kept? ≠ none → c.Before d) := by
  rcases readMember_cases h with ⟨selector, hread, rfl⟩ | ⟨error, hskip⟩
  · have hbefore := Selector.read_progresses lexicon _ _ _ hread
    exact ⟨hbefore.notAfter, fun _ => hbefore⟩
  · obtain ⟨rfl, rfl⟩ := Prod.mk.inj hskip
    exact ⟨skipMember_notAfter c error, fun hkept => absurd rfl hkept⟩

theorem comma_before (h : comma lexicon c = some d) : c.Before d := by
  obtain ⟨found, htoken, rfl⟩ := Option.map_eq_some_iff.mp h
  exact token_before htoken

/-- Each round of the loop over members takes a comma, also where it leaves out nothing else. -/
theorem round_before {policy : ListPolicy} (c d : Cursor)
    (h : Cursor.SeparatedRound (comma lexicon) (readMember lexicon policy) c d) : c.Before d := by
  obtain ⟨member, after, hmember, hcomma⟩ := h
  exact (readMember_place hmember).1.trans_before (comma_before hcomma)

/-- There is a comma after all members but the last, and one of them is not empty if it is kept. -/
structure Filled (text : List Char) (members : List Member) : Prop where
  all : members.length ≤ byteLength text + 1
  kept : members.filterMap Member.kept? ≠ [] → members.length ≤ byteLength text

theorem readMembers_filled {policy : ListPolicy} {members : List Member}
    (h : readMembers lexicon policy c = .ok (members, d)) :
    ∃ text, c.Takes text d ∧ Filled text members := by
  refine Cursor.readSeparated_sound ?_ ?_ h
  · intro c member d hmember
    obtain ⟨⟨s, hs⟩, hkept⟩ := readMember_place hmember
    refine ⟨s, hs, by simp, fun hne => ?_⟩
    have hmember : member.kept? ≠ none := fun hnone => hne (List.filterMap_cons_none hnone)
    have hlt := (hkept hmember).left_lt
    have hleft := hs.left_eq
    simp only [List.length_singleton]
    omega
  · intro c member d e t rest hmember hcomma hrest
    obtain ⟨hplace, hkept⟩ := readMember_place hmember
    have hbefore := comma_before hcomma
    obtain ⟨s, hs⟩ := hplace.trans hbefore.notAfter
    have hleft := hs.left_eq
    have hall := hrest.all
    have hlt := hbefore.left_lt
    have hle := hplace.left_le
    refine ⟨s, hs, ?_, fun hne => ?_⟩
    · rw [List.length_cons, byteLength_append]
      omega
    · rw [List.length_cons, byteLength_append]
      by_cases hmember : member.kept? = none
      · have := hrest.kept (by rwa [List.filterMap_cons_none hmember] at hne)
        omega
      · have := (hkept hmember).left_lt
        omega

/-- A list has at most as many members as it has bytes. -/
theorem read_length {policy : ListPolicy} {list : SelectorList}
    (h : read lexicon policy c = .ok (list, d)) :
    c.NotAfter d ∧ 0 < list.selectors.length + list.skipped.length ∧
      list.selectors.length + list.skipped.length + d.left ≤ c.left := by
  obtain ⟨members, hmembers, hlist⟩ := read_eq_ok_iff.mp h
  obtain ⟨n, _, _, hlength, -⟩ := (Cursor.separatedEnds round_before c).read _ _ hmembers
  have hne : members ≠ [] := by
    rintro rfl
    simp at hlength
  obtain ⟨hkept, rfl⟩ := ofMembers_eq_ok_iff.mp hlist
  have htotal := kept_add_skipped members
  obtain ⟨text, htakes, hfilled⟩ := readMembers_filled hmembers
  have hbytes := hfilled.kept (hkept hne)
  have hleft := htakes.left_eq
  refine ⟨⟨text, htakes⟩, ?_, ?_⟩
  · rw [htotal, hlength]
    omega
  · dsimp only
    rw [htotal]
    omega

theorem read_progresses (lexicon : Lexicon) (policy : ListPolicy) :
    Reader.Progresses (read lexicon policy) := by
  intro c list d h
  obtain ⟨hplace, hpos, hleft⟩ := read_length h
  apply hplace.before_of_left_lt
  omega

end SelectorList

/-! ## All readers -/

/-- A place of a text behind another one. -/
structure Cursor.Further (input : List Char) (c d : Cursor) : Prop where
  place : d.In input
  behind : c.offset < d.offset
  within : d.offset ≤ byteLength input

theorem Cursor.In.offset_le {input : List Char} (h : c.In input) : c.offset ≤ byteLength input := by
  obtain ⟨before, hbefore⟩ := h
  have hinput : input = before ++ c.rest := hbefore.rest
  have hoffset : c.offset = 0 + byteLength before := hbefore.offset
  rw [hinput, byteLength_append]
  omega

theorem Cursor.Before.further {input : List Char} (hc : c.In input) (h : c.Before d) :
    Cursor.Further input c d := by
  obtain ⟨s, hne, hs⟩ := h
  have hd := hc.take hs
  have hpos := Checked.byteLength_pos hne
  exact ⟨hd, by rw [hs.offset]; omega, hd.offset_le⟩

/-- The readers at a place of a text go on. -/
structure Lexicon.GoesOn (lexicon : Lexicon) (input : List Char) (c : Cursor) : Prop where
  /-- What is read ends at a place behind. -/
  compound : ∀ compound d, Compound.read lexicon c = .ok (compound, d) → Cursor.Further input c d
  nested : ∀ levels enclosing compound d,
    Compound.readNested lexicon levels enclosing c = .ok (compound, d) → Cursor.Further input c d
  selector : ∀ selector d, Selector.read lexicon c = .ok (selector, d) → Cursor.Further input c d
  formula : ∀ formula d, Formula.read lexicon c = .ok (formula, d) → Cursor.Further input c d
  qualifier : ∀ q d, Qualifier.readOutermost? lexicon c = .ok (some (q, d)) →
    Cursor.Further input c d
  /-- A list has at most as many members, kept or left out, as there are bytes left. -/
  list : ∀ policy list d, SelectorList.read lexicon policy c = .ok (list, d) →
    Cursor.Further input c d ∧ list.selectors.length + list.skipped.length ≤ c.left
  /-- Leaving out a member does not go back. -/
  skipped : ∀ error, (SelectorList.skipMember c error).2.In input ∧
    c.offset ≤ (SelectorList.skipMember c error).2.offset
  /-- The loops end after at most as many rounds as there are bytes left. -/
  qualifiers : ∀ levels name,
    c.WhileEnds (Qualifier.read? lexicon (Compound.argument? lexicon levels name))
  steps : c.WhileEnds (Step.read? lexicon)
  /-- A round is a member and the comma after it. The last pass, after whose member there is no
  comma, is not counted. -/
  members : ∀ policy,
    c.SeparatedEnds (SelectorList.comma lexicon) (SelectorList.readMember lexicon policy)
  /-- The calls for the arguments of negations that are made inside each other. -/
  depth : ∀ levels enclosing depth rest name d,
    Compound.Calls lexicon levels enclosing c depth rest name d → depth ≤ levels ∧ d.In input
  deepest : ∀ depth rest name d,
    Compound.Calls lexicon maxNegationDepth none c depth rest name d → depth ≤ 32
  /-- There are no other calls: readers that read the same at their places can stand for those
  of the arguments. -/
  calls : ∀ levels enclosing (other : Option String → Reader Compound),
    (∀ d, Compound.Enters lexicon (Compound.argument? lexicon (levels + 1)) enclosing c d →
      other (Compound.innerName lexicon enclosing c) d =
        Compound.readNested lexicon levels (Compound.innerName lexicon enclosing c) d) →
    Compound.readWith lexicon (fun name => some (other name)) enclosing c =
      Compound.readNested lexicon (levels + 1) enclosing c

/-- Whatever the lexicon is, the readers go on at every place of every text: each that succeeds
comes to a place behind, the loops over qualifiers, steps and members end after at most as many
rounds as there are bytes left, the last pass not counted, and the readers of the arguments of
negations are at most 32 deep. -/
theorem Lexicon.readers_goOn (lexicon : Lexicon) {input : List Char} {c : Cursor}
    (hc : c.In input) : lexicon.GoesOn input c where
  compound _ _ h := (Compound.read_progresses lexicon _ _ _ h).further hc
  nested levels enclosing _ _ h :=
    (Compound.readNested_progresses lexicon levels enclosing _ _ _ h).further hc
  selector _ _ h := (Selector.read_progresses lexicon _ _ _ h).further hc
  formula _ _ h := (Formula.read_progresses lexicon _ _ _ h).further hc
  qualifier q d h := by
    have hargument := Compound.argument?_progresses lexicon maxNegationDepth none
    exact (Qualifier.read?_before hargument h).further hc
  list policy list d h := by
    obtain ⟨-, -, hleft⟩ := SelectorList.read_length h
    exact ⟨(SelectorList.read_progresses lexicon policy _ _ _ h).further hc, by omega⟩
  skipped error := by
    obtain ⟨s, hs⟩ := SelectorList.skipMember_notAfter c error
    exact ⟨hc.take hs, by rw [hs.offset]; omega⟩
  qualifiers levels name :=
    Cursor.whileEnds (Qualifier.round_before (Compound.argument?_progresses lexicon levels name)) c
  steps := Cursor.whileEnds Step.round_before c
  members _ := Cursor.separatedEnds SelectorList.round_before c
  depth levels enclosing depth rest name d h := by
    obtain ⟨hdepth, -, s, hs⟩ := h.depth_add
    exact ⟨by omega, hc.take hs⟩
  deepest depth rest name d h := by
    obtain ⟨hdepth, -⟩ := h.depth_add
    rw [maxNegationDepth] at hdepth
    omega
  calls levels enclosing other h := by
    rw [Compound.readNested_eq]
    symm
    refine Compound.readWith_congr (fun name => rfl) ?_
    intro d henters read hread read' hread'
    cases hread
    cases hread'
    exact (h d henters).symm

/-- The matcher that takes any one character. -/
def Matcher.anyCharacter : Matcher where
  run
    | [] => none
    | c :: s => some ([c], s)
  sound {s token rest} h := by
    cases s with
    | nil => cases h
    | cons c s =>
      cases h
      exact ⟨List.cons_ne_nil c [], rfl⟩

/-- Where any character is a token of every kind, three characters of four bytes are white space, an
element test and a class. -/
theorem Lexicon.readers_goOn_anyCharacter :
    let lexicon : Lexicon := fun _ => .anyCharacter
    let start := Cursor.start "aéb"
    start.In "aéb".toList ∧
      Compound.read lexicon start = .ok (⟨some .universal, [.className ""]⟩, ⟨4, []⟩) ∧
      Cursor.Further "aéb".toList start ⟨4, []⟩ := by
  intro lexicon start
  have hstart : start.In "aéb".toList := .start "aéb"
  have hread : Compound.read lexicon start = .ok (⟨some .universal, [.className ""]⟩, ⟨4, []⟩) := by
    cbv
  exact ⟨hstart, hread, (lexicon.readers_goOn hstart).compound _ _ hread⟩

end SelectorPath
