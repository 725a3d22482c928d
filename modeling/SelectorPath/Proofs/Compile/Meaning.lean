import SelectorPath.Proofs.Compile.Paths
import SelectorPath.Proofs.Compile.Structure

/-!
What compiled selectors select, read back from their text.

From an element they select what the selectors select (`SelectorList.xpath_selects`). Anchored
at the document they miss the chains that start with the document element
(`Selector.xpath_document_selects`).

The words of the compiled expressions are those of `hasPlainWord`. They are the words by the
rules for selectors (`hasWord`) as long as a document has no form feeds in its attributes, as
is the case in XML, and all white space in the words that are asked for is blanks.
-/

namespace SelectorPath

open Text XPath Syntax

/-! ## Words -/

/-- No attribute holds a form feed. -/
def Document.FormFeedFree (doc : Document) : Prop :=
  ∀ a name text, doc.attribute? a name = some text → '\x0c' ∉ text.toList

/-- A word has white space only if it has blanks. -/
def BlankIfSpaced (word : String) : Prop :=
  (∃ c ∈ word.toList, isSpace c) → ∃ c ∈ word.toList, isBlank c

/-- What words are asked for. -/
def Qualifier.BlankIfSpaced : Qualifier → Prop
  | .attributeTest (.compare _ .includes word) => SelectorPath.BlankIfSpaced word
  | _ => True

def Selector.BlankIfSpaced (selector : Selector) : Prop :=
  ∀ step ∈ selector.steps, step.compound.Each (fun _ => True) Qualifier.BlankIfSpaced

theorem isXmlSpace_eq_isBlank {c : Char} (h : c ≠ '\x0c') : isXmlSpace c = isBlank c := by
  simp [isXmlSpace, isBlank, h, Bool.beq_eq_decide_eq]

theorem hasPlainWord_iff {text word : String} (htext : '\x0c' ∉ text.toList)
    (hword : BlankIfSpaced word) : hasPlainWord text word ↔ hasWord text word := by
  have hwords : words isXmlSpace text.toList = words isBlank text.toList :=
    words_congr fun c hc => isXmlSpace_eq_isBlank (ne_of_mem_of_not_mem hc htext)
  rw [hasPlainWord, hasWord, hwords]
  refine and_iff_right_of_imp fun hmem c hc => ?_
  cases hspace : isSpace c with
  | false => rfl
  | true =>
    obtain ⟨d, hd, hblank⟩ := hword ⟨c, hc, hspace⟩
    rw [(of_mem_words hmem).2 d hd] at hblank
    cases hblank

section Words

variable {doc : Document}

theorem exists_hasPlainWord_iff (hfree : doc.FormFeedFree) {a : Address} {name word : String}
    (hword : BlankIfSpaced word) :
    (∃ text, doc.attribute? a name = some text ∧ hasPlainWord text word) ↔
      ∃ text, doc.attribute? a name = some text ∧ hasWord text word :=
  exists_congr fun text => and_congr_right fun htext =>
    hasPlainWord_iff (hfree a name text htext) hword

theorem AttributeTest.matches_hasPlainWord (hfree : doc.FormFeedFree) {a : Address}
    (test : AttributeTest) (h : (Qualifier.attributeTest test).BlankIfSpaced) :
    test.Matches hasPlainWord (doc.attribute? a) ↔
      test.Matches SelectorPath.hasWord (doc.attribute? a) := by
  match test with
  | .compare name .includes word => exact exists_hasPlainWord_iff hfree h
  | .compare _ .equals _ | .compare _ .dashMatch _ | .compare _ .startsWith _
  | .compare _ .endsWith _ | .compare _ .contains _ | .present _ => exact Iff.rfl

mutual

theorem Qualifier.matches_hasPlainWord (hfree : doc.FormFeedFree) {a : Address}
    (q : Qualifier) (hnamed : q.Each ElementTest.Named Qualifier.Named)
    (hblank : q.Each (fun _ => True) Qualifier.BlankIfSpaced) :
    q.Matches hasPlainWord doc a ↔ q.Matches hasWord doc a := by
  match q with
  | .className name =>
    refine exists_hasPlainWord_iff hfree fun ⟨c, hc, hspace⟩ => ?_
    rw [(ne_empty_of_headed hnamed).2 c hc] at hspace
    cases hspace
  | .attributeTest test => exact test.matches_hasPlainWord hfree hblank
  | .id _ | .place _ _ | .nth _ _ => exact Iff.rfl
  | .negation element qualifiers =>
    exact not_congr (and_congr_right fun _ =>
      Qualifier.allMatch_hasPlainWord hfree qualifiers hnamed.2 hblank.2)

theorem Qualifier.allMatch_hasPlainWord (hfree : doc.FormFeedFree) {a : Address}
    (qualifiers : List Qualifier)
    (hnamed : Qualifier.AllEach ElementTest.Named Qualifier.Named qualifiers)
    (hblank : Qualifier.AllEach (fun _ => True) Qualifier.BlankIfSpaced qualifiers) :
    Qualifier.AllMatch hasPlainWord doc a qualifiers ↔
      Qualifier.AllMatch hasWord doc a qualifiers := by
  match qualifiers with
  | [] => exact Iff.rfl
  | q :: rest =>
    exact and_congr (Qualifier.matches_hasPlainWord hfree q hnamed.1 hblank.1)
      (Qualifier.allMatch_hasPlainWord hfree rest hnamed.2 hblank.2)

end

theorem Compound.matches_hasPlainWord (hfree : doc.FormFeedFree) {a : Address} {compound : Compound}
    (hnamed : compound.Named) (hblank : compound.Each (fun _ => True) Qualifier.BlankIfSpaced) :
    compound.Matches hasPlainWord doc a ↔ compound.Matches hasWord doc a :=
  and_congr_right fun _ =>
    Qualifier.allMatch_hasPlainWord hfree _ hnamed.qualifiers hblank.qualifiers

theorem Step.chain_hasPlainWord (hfree : doc.FormFeedFree) {steps : List Step} {a b : Address}
    (hnamed : ∀ step ∈ steps, step.compound.Named)
    (hblank : ∀ step ∈ steps, step.compound.Each (fun _ => True) Qualifier.BlankIfSpaced) :
    Step.Chain hasPlainWord doc steps a b ↔ Step.Chain hasWord doc steps a b := by
  induction steps generalizing a with
  | nil => exact Iff.rfl
  | cons step rest ih =>
    obtain ⟨hnamedStep, hnamedRest⟩ := List.forall_mem_cons.mp hnamed
    obtain ⟨hblankStep, hblankRest⟩ := List.forall_mem_cons.mp hblank
    refine exists_congr fun c => and_congr ?_ (ih hnamedRest hblankRest)
    rw [Step.Leads, Step.Leads, Compound.matches_hasPlainWord hfree hnamedStep hblankStep]

end Words

/-! ## From an element -/

/-- The tree of selectors finds what one of them selects. -/
theorem SelectorList.tree_finds {selectors : List Selector} (hne : selectors ≠ [])
    (h : ∀ selector ∈ selectors, selector.WellFormed) {doc : Document} {context : Context}
    {c : Address} (hnode : context.node = .element c) (hc : doc.Has c) :
    Finds doc context (SelectorList.tree .context selectors)
      fun e => ∃ selector ∈ selectors, selector.Selects hasPlainWord doc c e := by
  rw [SelectorList.tree, unionTree, List.map_map]
  exact Finds.chain hne fun selector hselector => (h selector hselector).path_finds hnode hc

theorem XPath.Finds.select? {doc : Document} {node : Node} {tree : Tree} {P : Address → Prop}
    (h : Finds doc ⟨node, 1, 1⟩ tree P) :
    ∃ nodes, tree.select? doc node = some nodes ∧
      ∀ other, other ∈ nodes ↔ ∃ e, other = .element e ∧ P e := by
  obtain ⟨found, heval, hiff⟩ := h
  refine ⟨found.map .element, by rw [Tree.select?, heval], fun other => ?_⟩
  simp only [List.mem_map, hiff, and_comm, eq_comm]

/-- From an element, the text of the selectors that a text gives selects what these select. The
words are those of XML without any white space, which are those of selectors if there are no
form feeds in the document and all white space in the words that are asked for is blanks. -/
theorem SelectorList.xpath_selects {options : Options} {text : String} {list : SelectorList}
    (h : SelectorList.ofText .standard options text = .ok list) :
    ∃ tree, Tree.ofText? (SelectorList.xpath .context list.selectors) = some tree ∧
      ∀ (doc : Document) (c : Address), doc.Has c →
        ∃ nodes, tree.select? doc (.element c) = some nodes ∧
          (∀ node, node ∈ nodes ↔ ∃ e, node = .element e ∧
            ∃ selector ∈ list.selectors, selector.Selects hasPlainWord doc c e) ∧
          (doc.FormFeedFree → (∀ selector ∈ list.selectors, selector.BlankIfSpaced) →
            ∀ node, node ∈ nodes ↔ ∃ e, node = .element e ∧
              ∃ selector ∈ list.selectors, selector.Selects hasWord doc c e) := by
  obtain ⟨hne, hwellFormed⟩ := SelectorList.ofText_wellFormed h
  refine ⟨_, SelectorList.ofText?_xpath hne fun selector hselector =>
    (hwellFormed selector hselector).xpathNamed, fun doc c hc => ?_⟩
  obtain ⟨nodes, hnodes, hiff⟩ := (SelectorList.tree_finds hne hwellFormed rfl hc).select?
  refine ⟨nodes, hnodes, hiff, fun hfree hblank node => (hiff node).trans ?_⟩
  refine exists_congr fun e => and_congr_right fun _ => exists_congr fun selector =>
    and_congr_right fun hselector => ?_
  exact Step.chain_hasPlainWord hfree (hwellFormed selector hselector).named
    (hblank selector hselector)

/-- Items with a class that are not the first children of lists. -/
theorem SelectorList.xpath_selects_items : ∃ list tree,
    SelectorList.ofText .standard .standard "ul > li.a:not(:first-child)" = .ok list ∧
      Tree.ofText? (SelectorList.xpath .context list.selectors) = some tree ∧
      ∀ (doc : Document) (c : Address), doc.Has c → doc.FormFeedFree →
        ∃ nodes, tree.select? doc (.element c) = some nodes ∧
          ∀ node, node ∈ nodes ↔ ∃ e, node = .element e ∧
            ∃ selector ∈ list.selectors, selector.Selects hasWord doc c e := by
  have h : SelectorList.ofText .standard .standard "ul > li.a:not(:first-child)" =
      .ok ⟨[⟨[⟨.descendant, ⟨some (.named "ul"), []⟩⟩,
        ⟨.child, ⟨some (.named "li"), [.className "a",
          .negation none [.place .first .children]]⟩⟩]⟩], []⟩ := by
    cbv
  obtain ⟨tree, htree, hselects⟩ := SelectorList.xpath_selects h
  refine ⟨_, tree, h, htree, fun doc c hc hfree => ?_⟩
  obtain ⟨nodes, hnodes, -, hiff⟩ := hselects doc c hc
  refine ⟨nodes, hnodes, hiff hfree ?_⟩
  simp only [Selector.BlankIfSpaced, List.mem_cons, List.not_mem_nil, or_false, forall_eq,
    forall_eq_or_imp]
  exact ⟨⟨trivial, trivial⟩, ⟨trivial, trivial, ⟨trivial, trivial, trivial⟩, trivial⟩⟩

/-- A test for a word with a no-break space in it, which is white space but no blank. -/
def Selector.noBreakSpaceWord : Selector :=
  ⟨[⟨.descendant, ⟨none, [.attributeTest (.compare "a" .includes "x\u00a0y")]⟩⟩]⟩

/-- An element in which that word is an attribute. -/
def Document.noBreakSpaceWord : Document :=
  ⟨.mk "r" ∅ [.mk "e" (AList.singleton "a" "x\u00a0y") []]⟩

/-- The element with the word is selected, but not by the compiled text. -/
theorem SelectorList.xpath_misses_noBreakSpaceWord :
    SelectorList.ofText .standard .standard "[a~=\"x\u00a0y\"]" = .ok ⟨[.noBreakSpaceWord], []⟩ ∧
      ∃ tree, Tree.ofText? (SelectorList.xpath .context [.noBreakSpaceWord]) = some tree ∧
        tree.select? .noBreakSpaceWord (.element []) = some [] ∧
        Selector.noBreakSpaceWord.Selects hasWord .noBreakSpaceWord [] [0] := by
  have h : SelectorList.ofText .standard .standard "[a~=\"x\u00a0y\"]" =
      .ok ⟨[.noBreakSpaceWord], []⟩ := by
    cbv
  have hnamed := ((SelectorList.ofText_wellFormed h).2 _ List.mem_cons_self).xpathNamed
  have hword : hasWord "x\u00a0y" "x\u00a0y" := by
    simp only [hasWord, words]
    decide
  refine ⟨h, _, SelectorList.ofText?_xpath (List.cons_ne_nil _ _) (by simpa using hnamed),
    by decide, [0], ⟨rfl, ⟨List.nil_suffix, by simp⟩, ?_, ⟨_, rfl, hword⟩, trivial⟩, rfl⟩
  simp [ElementTest.Matches, ElementTest.name?]

/-! ## From the root -/

/-- Elements at the end of a chain of which the first element is given. -/
def Selector.SelectsFrom (hasWord : WordTest) (doc : Document) (selector : Selector)
    (a b : Address) : Prop :=
  match selector.steps with
  | [] => False
  | first :: rest => doc.Has a ∧ first.compound.Matches hasWord doc a ∧
      Step.Chain hasWord doc rest a b

theorem Selector.selectsFrom_hasPlainWord {doc : Document} (hfree : doc.FormFeedFree)
    {selector : Selector} (h : selector.WellFormed) (hblank : selector.BlankIfSpaced)
    {a b : Address} :
    selector.SelectsFrom hasPlainWord doc a b ↔ selector.SelectsFrom hasWord doc a b := by
  obtain ⟨steps⟩ := selector
  cases steps with
  | nil => exact Iff.rfl
  | cons first rest =>
    obtain ⟨hnamed, hnamedRest⟩ := List.forall_mem_cons.mp h.named
    obtain ⟨hblankFirst, hblankRest⟩ := List.forall_mem_cons.mp hblank
    exact and_congr_right fun _ => and_congr
      (Compound.matches_hasPlainWord hfree hnamed hblankFirst)
      (Step.chain_hasPlainWord hfree hnamedRest hblankRest)

/-- From the root, the text of a selector whose first step leads to all elements inside selects
the ends of its chains, but not of those that start with the document element. This is what
all chains lead to if and only if those that start there lead to nothing else. -/
theorem Selector.xpath_document_selects {options : Options} {text : String}
    {list : SelectorList} (h : SelectorList.ofText .standard options text = .ok list)
    {selector : Selector} (hselector : selector ∈ list.selectors)
    (hfirst : selector.steps.head?.map Step.combinator = some .descendant) :
    ∃ tree, Tree.ofText? (SelectorList.xpath .document [selector]) = some tree ∧
      ∀ (doc : Document) (start : Node), ∃ nodes, tree.select? doc start = some nodes ∧
        (∀ node, node ∈ nodes ↔ ∃ e, node = .element e ∧
          ∃ a, a ≠ [] ∧ selector.SelectsFrom hasPlainWord doc a e) ∧
        (doc.FormFeedFree → selector.BlankIfSpaced →
          ((∀ node, node ∈ nodes ↔ ∃ e, node = .element e ∧
              ∃ a, selector.SelectsFrom hasWord doc a e) ↔
            ∀ e, selector.SelectsFrom hasWord doc [] e →
              ∃ a, a ≠ [] ∧ selector.SelectsFrom hasWord doc a e)) := by
  have hwellFormed := (SelectorList.ofText_wellFormed h).2 selector hselector
  refine ⟨_, SelectorList.ofText?_xpath (List.cons_ne_nil selector [])
    (by simpa using hwellFormed.xpathNamed), fun doc start => ?_⟩
  have hfinds : Finds doc ⟨start, 1, 1⟩ (selector.path .document).tree
      fun e => ∃ a, a ≠ [] ∧ selector.SelectsFrom hasPlainWord doc a e := by
    obtain ⟨steps⟩ := selector
    obtain ⟨first, hhead, hcombinator⟩ := Option.map_eq_some_iff.mp hfirst
    obtain ⟨rest, rfl⟩ := List.head?_eq_some_iff.mp hhead
    exact path_finds_document hwellFormed hcombinator
  obtain ⟨nodes, hnodes, hiff⟩ := hfinds.select?
  refine ⟨nodes, hnodes, hiff, fun hfree hblank => ?_⟩
  simp only [hiff, selectsFrom_hasPlainWord hfree hwellFormed hblank]
  constructor
  · intro hall e he
    obtain ⟨e', heq, hchain⟩ := (hall (.element e)).mpr ⟨e, rfl, [], he⟩
    rwa [← Node.element.inj heq] at hchain
  · intro hroot node
    refine exists_congr fun e => and_congr_right fun _ => ?_
    constructor
    · rintro ⟨a, -, ha⟩
      exact ⟨a, ha⟩
    · rintro ⟨a, ha⟩
      by_cases hne : a = []
      · exact hroot e (hne ▸ ha)
      · exact ⟨a, hne, ha⟩

/-- The first of two selectors, which leads from all elements with one name to those next to
them. -/
theorem Selector.xpath_document_selects_neighbours : ∃ list tree,
    SelectorList.ofText .standard .standard "h1 + p, .a" = .ok list ∧
      ∃ selector ∈ list.selectors,
        Tree.ofText? (SelectorList.xpath .document [selector]) = some tree ∧
        ∀ (doc : Document) (start : Node), ∃ nodes, tree.select? doc start = some nodes ∧
          ∀ node, node ∈ nodes ↔ ∃ e, node = .element e ∧
            ∃ a, a ≠ [] ∧ selector.SelectsFrom hasPlainWord doc a e := by
  have h : SelectorList.ofText .standard .standard "h1 + p, .a" =
      .ok ⟨[⟨[⟨.descendant, ⟨some (.named "h1"), []⟩⟩, ⟨.nextSibling, ⟨some (.named "p"), []⟩⟩]⟩,
        ⟨[⟨.descendant, ⟨none, [.className "a"]⟩⟩]⟩], []⟩ := by
    cbv
  obtain ⟨tree, htree, hselects⟩ := Selector.xpath_document_selects h List.mem_cons_self rfl
  refine ⟨_, tree, h, _, List.mem_cons_self, htree, fun doc start => ?_⟩
  obtain ⟨nodes, hnodes, hiff, -⟩ := hselects doc start
  exact ⟨nodes, hnodes, hiff⟩

/-- A document of one element is missed, though it has the name that is asked for. -/
theorem Selector.xpath_document_misses_documentElement :
    let selector : Selector := ⟨[⟨.descendant, ⟨some (.named "html"), []⟩⟩]⟩
    let doc : Document := ⟨.mk "html" ∅ []⟩
    SelectorList.ofText .standard .standard "html" = .ok ⟨[selector], []⟩ ∧
      ∃ tree, Tree.ofText? (SelectorList.xpath .document [selector]) = some tree ∧
        tree.select? doc .root = some [] ∧ selector.SelectsFrom hasWord doc [] [] := by
  have h : SelectorList.ofText .standard .standard "html" =
      .ok ⟨[⟨[⟨.descendant, ⟨some (.named "html"), []⟩⟩]⟩], []⟩ := by
    cbv
  have hnamed := ((SelectorList.ofText_wellFormed h).2 _ List.mem_cons_self).xpathNamed
  refine ⟨h, _, SelectorList.ofText?_xpath (List.cons_ne_nil _ _) (by simpa using hnamed),
    by decide, rfl, ⟨?_, trivial⟩, rfl⟩
  rintro name hname
  obtain rfl := Option.some.inj hname
  rfl

end SelectorPath
