import SelectorPath.Compile.Selector
import SelectorPath.Proofs.Compile.WellFormed
import SelectorPath.Proofs.Selector.Semantics
import SelectorPath.Proofs.XPath.Evaluation

/-!
What the term of an attribute test asks of an element (`AttributeTest.term_tests`).
-/

namespace SelectorPath

open Text XPath Syntax

/-! ## Texts -/

theorem pieces_flatMap (s : List Char) : (pieces s).flatMap Prod.snd = s := by
  induction s with
  | nil => rfl
  | cons c rest ih =>
    unfold pieces
    split
    · next hc => rw [List.flatMap_cons, ih, hc]; rfl
    · split
      · next run more heq =>
        rw [heq] at ih
        rw [List.flatMap_cons, List.cons_append]
        exact congrArg (c :: ·) ih
      · rw [List.flatMap_cons, ih]; rfl

/-- A text with both quotes is made up of at least two pieces. -/
theorem two_le_length_pieces {s : List Char} (hdouble : '"' ∈ s) (hsingle : '\'' ∈ s) :
    2 ≤ (pieces s).length := by
  have hflat := pieces_flatMap s
  have hquote : ∀ p ∈ pieces s, p.1.char ∉ p.2 := pieces_quote
  cases hpieces : pieces s with
  | nil =>
    rw [hpieces] at hflat
    rw [← hflat] at hdouble
    cases hdouble
  | cons p rest =>
    cases rest with
    | nil =>
      obtain rfl : p.2 = s := by simpa [hpieces] using hflat
      have hp := hquote p (by rw [hpieces]; exact List.mem_singleton_self p)
      cases hchar : p.1 with
      | double =>
        rw [hchar] at hp
        exact absurd hdouble hp
      | single =>
        rw [hchar] at hp
        exact absurd hsingle hp
    | cons q rest => simp

section Evaluation

variable {doc : Document} {context : Context}

theorem evalAll?_literals (ps : List (Quote × List Char)) :
    Tree.evalAll? doc context (Expr.trees (ps.map fun p => .literal ⟨p.1, String.ofList p.2⟩)) =
      some (ps.map fun p => .text p.2) := by
  induction ps with
  | nil => rfl
  | cons p ps ih => simp [Expr.trees, Expr.tree, Tree.evalAll?, Tree.eval?, ih]

/-- The expression of a text has the text as its value. -/
theorem eval?_ofText (text : String) :
    (Expr.ofText text).tree.eval? doc context = some (.text text.toList) := by
  unfold Expr.ofText
  split
  · rfl
  · split
    · rfl
    · next hdouble hsingle =>
      have hlength := two_le_length_pieces (not_not.mp hdouble) (not_not.mp hsingle)
      have hflat := pieces_flatMap text.toList
      rw [Expr.tree, Tree.eval?, evalAll?_literals]
      cases hpieces : pieces text.toList with
      | nil => simp [hpieces] at hlength
      | cons p rest =>
        cases rest with
        | nil => simp [hpieces] at hlength
        | cons q rest =>
          rw [hpieces] at hflat
          simpa [call?, Function.name, Value.toText, List.flatMap_map] using hflat

/-! ## Attributes -/

/-- A value stands for an attribute of an element, which may be absent. -/
structure StandsFor (doc : Document) (v : Value) (text? : Option String) : Prop where
  isNumber : v.isNumber = false
  toBool : v.toBool = text?.isSome
  toText : v.toText doc = (text?.getD "").toList
  equals : ∀ s : String, v.equals? doc (.text s.toList) = some (decide (text? = some s))

theorem mem_attributeNames {a : Address} {name : String} :
    name ∈ doc.attributeNames a ↔ (doc.attribute? a name).isSome := by
  unfold Document.attributeNames Document.attribute?
  cases doc.at? a with
  | none => simp
  | some x => simp [AList.lookup_isSome, AList.mem_keys]

theorem attributeNames_nodup (a : Address) : (doc.attributeNames a).Nodup := by
  unfold Document.attributeNames
  cases doc.at? a with
  | none => simp
  | some x => exact x.attributes.keys_nodup

/-- On the axis of attributes there is the one with a name, if it is present. -/
theorem attributes_filter (a : Address) (name : String) :
    ((doc.attributeNames a).map (Node.attribute a)).filter (doc.passes .attribute (.named name)) =
      if (doc.attribute? a name).isSome then [.attribute a name] else [] := by
  have hpasses : doc.passes .attribute (.named name) ∘ Node.attribute a = (· == name) := by
    funext n
    simp [Document.passes, Node.isAttribute, Document.nodeName?]
  rw [List.filter_map, hpasses, List.filter_beq]
  split
  · next h =>
    rw [List.count_eq_one_of_mem (attributeNames_nodup a) (mem_attributeNames.mpr h)]
    rfl
  · next h =>
    rw [List.count_eq_zero.mpr fun hmem => h (mem_attributeNames.mp hmem)]
    rfl

theorem attribute_mem_nodes {a : Address} {name : String} (ha : doc.Has a)
    (h : (doc.attribute? a name).isSome) : Node.attribute a name ∈ doc.nodes := by
  refine List.mem_cons_of_mem _ (List.mem_flatMap.mpr ⟨a, Document.mem_addresses.mpr ha, ?_⟩)
  exact List.mem_cons_of_mem _ (List.mem_map_of_mem (mem_attributeNames.mpr h))

theorem toText_singleton {node : Node} (h : node ∈ doc.nodes) :
    (Value.nodes [node]).toText doc = doc.nodeText node := by
  have hfind : doc.nodes.find? (fun other => decide (other ∈ [node])) = some node := by
    cases hfound : doc.nodes.find? (fun other => decide (other ∈ [node])) with
    | none =>
      have hnone := List.find?_eq_none.mp hfound node h
      simp at hnone
    | some other =>
      have hother := List.find?_some hfound
      exact congrArg some (by simpa using hother)
  rw [Value.toText, hfind]
  rfl

theorem toText_nil : (Value.nodes []).toText doc = [] := by
  have hfind : doc.nodes.find? (fun other => decide (other ∈ [])) = none :=
    List.find?_eq_none.mpr (by simp)
  rw [Value.toText, hfind]
  rfl

theorem eval?_attributeNamed {a : Address} (hnode : context.node = .element a) (ha : doc.Has a)
    (name : String) : ∃ v, (Expr.attributeNamed name).tree.eval? doc context = some v ∧
      StandsFor doc v (doc.attribute? a name) := by
  have haxis : doc.axis? .attribute context.node =
      some ((doc.attributeNames a).map (.attribute a)) := by
    rw [hnode]
    rfl
  have hnodup : ((doc.attributeNames a).map (Node.attribute a)).Nodup :=
    (attributeNames_nodup a).map fun _ _ h => (Node.attribute.inj h).2
  refine ⟨_, eval?_nodes haxis hnodup (.named name), ?_⟩
  rw [attributes_filter]
  cases hattribute : doc.attribute? a name with
  | none =>
    refine ⟨rfl, rfl, toText_nil, fun s => ?_⟩
    simp [Value.equals?]
  | some text =>
    have hmem := attribute_mem_nodes ha (Option.isSome_of_mem hattribute)
    have htext : doc.nodeText (.attribute a name) = text.toList := by
      simp [Document.nodeText, hattribute]
    refine ⟨rfl, rfl, (toText_singleton hmem).trans htext, fun s => ?_⟩
    rw [Value.equals?, Option.some.injEq, Bool.eq_iff_iff]
    simp [htext, String.toList_inj]

/-- The word test of a compiled expression: the word holds no white space and is one of those
that the white space of XML separates. -/
def hasPlainWord : WordTest := fun text word =>
  (∀ c ∈ word.toList, isSpace c = false) ∧ word.toList ∈ words isXmlSpace text.toList

theorem eval?_hasWord {target : Expr} {v : Value} (hv : target.tree.eval? doc context = some v)
    (word : String) : (AttributeTest.hasWord target word).tree.eval? doc context =
      some (.boolean (decide (' ' :: (word.toList ++ [' ']) <:+:
        ' ' :: (normalizeSpace (v.toText doc) ++ [' '])))) := by
  simp [AttributeTest.hasWord, Expr.tree, Expr.trees, Tree.eval?, Tree.evalAll?, hv,
    eval?_ofText, call?, Function.name, Value.toText]

/-- Without the white space of XML a word is found where it is one of the words. -/
theorem infix_normalizeSpace_iff {word text : List Char} (hne : word ≠ [])
    (hspace : ∀ c ∈ word, isXmlSpace c = false) :
    ' ' :: (word ++ [' ']) <:+: ' ' :: (normalizeSpace text ++ [' ']) ↔
      word ∈ words isXmlSpace text := by
  have hblank {w : List Char} (hw : ∀ c ∈ w, isXmlSpace c = false) : ' ' ∉ w := by
    intro hmem
    simpa [isXmlSpace] using hw ' ' hmem
  exact blank_word_infix_iff hne (hblank hspace) fun w hw => hblank (of_mem_words hw).2

theorem hasWord_tests {a : Address} (hnode : context.node = .element a) (ha : doc.Has a)
    (name : String) {word : String} (hne : word ≠ "")
    (hspace : ∀ c ∈ word.toList, isSpace c = false) :
    Tests doc context (AttributeTest.hasWord (.attributeNamed name) word).tree
      (∃ text, doc.attribute? a name = some text ∧ hasPlainWord text word) := by
  obtain ⟨v, hv, hstands⟩ := eval?_attributeNamed hnode ha name
  have hxml : ∀ c ∈ word.toList, isXmlSpace c = false := by
    intro c hc
    cases hx : isXmlSpace c with
    | false => rfl
    | true => exact absurd (isSpace_of_isXmlSpace hx) (by simp [hspace c hc])
  refine (Tests.of_boolean (eval?_hasWord hv word)).congr ?_
  rw [decide_eq_true_iff, infix_normalizeSpace_iff (by simpa using hne) hxml, hstands.toText]
  cases doc.attribute? a name with
  | none => simp [words]
  | some text => simpa [hasPlainWord] using fun _ => hspace

/-! ## Attribute tests -/

theorem same_tests {target : Expr} {v : Value} {text? : Option String}
    (hv : target.tree.eval? doc context = some v) (hstands : StandsFor doc v text?)
    (value : String) :
    Tests doc context (Expr.same target (.ofText value)).tree (text? = some value) :=
  (Tests.of_boolean (eval?_same hv (eval?_ofText value) (hstands.equals value))).congr
    decide_eq_true_iff

theorem startsWith_tests {target : Expr} {v : Value}
    (hv : target.tree.eval? doc context = some v) (value : String) :
    Tests doc context (Expr.call .startsWith [target, .ofText value]).tree
      (value.toList <+: v.toText doc) :=
  (Tests.of_boolean (eval?_call_two hv (eval?_ofText value) rfl)).congr decide_eq_true_iff

theorem contains_tests {target : Expr} {v : Value}
    (hv : target.tree.eval? doc context = some v) (value : String) :
    Tests doc context (Expr.call .contains [target, .ofText value]).tree
      (value.toList <:+: v.toText doc) :=
  (Tests.of_boolean (eval?_call_two hv (eval?_ofText value) rfl)).congr decide_eq_true_iff

/-- A value ends a text if and only if it is what is left of the text from the length of the
value before its end on. -/
theorem endsWith_tests {target : Expr} {v : Value}
    (hv : target.tree.eval? doc context = some v) (value : String) :
    Tests doc context (AttributeTest.comparison target .endsWith value).tree
      (value.toList <:+ v.toText doc) := by
  have hvalue : (Expr.ofText value).tree.eval? doc context = some (.text value.toList) :=
    eval?_ofText value
  have hstart : (Expr.binary .plus (.binary .minus (.call .stringLength [target])
      (.call .stringLength [.ofText value])) (.number 1)).tree.eval? doc context =
        some (.number ((v.toText doc).length - value.toList.length + 1)) :=
    eval?_binary (eval?_binary (eval?_call_one hv rfl) (eval?_call_one hvalue rfl) rfl)
      (eval?_number 1) rfl
  have hdrop : ((v.toText doc).length - value.toList.length + 1 - 1 : Int).toNat =
      (v.toText doc).length - value.toList.length := by
    omega
  have heval : (AttributeTest.comparison target .endsWith value).tree.eval? doc context =
      some (.boolean ((v.toText doc).drop ((v.toText doc).length - value.toList.length) ==
        value.toList)) := by
    refine eval?_same (eval?_call_two hv hstart rfl) hvalue ?_
    rw [hdrop]
    rfl
  refine (Tests.of_boolean heval).congr ?_
  rw [List.suffix_iff_eq_drop, beq_iff_eq, eq_comm]

theorem dashMatch_tests {target : Expr} {v : Value} {text? : Option String}
    (hv : target.tree.eval? doc context = some v) (hstands : StandsFor doc v text?)
    (value : String) :
    Tests doc context (AttributeTest.comparison target .dashMatch value).tree
      (text? = some value ∨ (value.toList ++ ['-']) <+: v.toText doc) := by
  have hstart := startsWith_tests hv (value ++ "-")
  rw [String.toList_append] at hstart
  exact (same_tests hv hstands value).or hstart

/-- What does not hold of the empty text does not hold of an absent attribute. -/
theorem getD_iff_exists {text? : Option String} {P : List Char → Prop} (hnil : ¬P []) :
    P (text?.getD "").toList ↔ ∃ text, text? = some text ∧ P text.toList := by
  cases text? with
  | none => simpa using hnil
  | some text => simp

/-- A test that is left out as vacuous holds of no attribute. -/
theorem AttributeTest.not_compares_of_isVacuous {operator : AttributeOperator} {value : String}
    (h : isVacuous operator value) (text : String) :
    ¬operator.Compares hasPlainWord text value := by
  intro hcompares
  cases operator with
  | equals | dashMatch => simp [isVacuous] at h
  | includes =>
    obtain ⟨hspace, hword⟩ := hcompares
    rcases Bool.or_eq_true_iff.mp h with hempty | hany
    · exact (of_mem_words hword).1 (by simpa using hempty)
    · obtain ⟨c, hc, hcspace⟩ := List.any_eq_true.mp hany
      rw [hspace c hc] at hcspace
      cases hcspace
  | startsWith | endsWith | contains => exact hcompares.1 (by simpa [isVacuous] using h)

/-- The term of a test asks what the test asks, where words are those of `hasPlainWord`. -/
theorem AttributeTest.term_tests {a : Address} (hnode : context.node = .element a)
    (ha : doc.Has a) (test : AttributeTest) :
    Tests doc context test.term.tree (test.Matches hasPlainWord (doc.attribute? a)) := by
  cases test with
  | present name =>
    obtain ⟨v, hv, hstands⟩ := eval?_attributeNamed hnode ha name
    exact ⟨v, hv, hstands.isNumber, by rw [hstands.toBool]; rfl⟩
  | compare name operator value =>
    obtain ⟨v, hv, hstands⟩ := eval?_attributeNamed hnode ha name
    rw [term]
    split
    · next hvacuous =>
      refine constFalse_tests.congr (iff_of_false id ?_)
      rintro ⟨text, -, hcompares⟩
      exact not_compares_of_isVacuous hvacuous text hcompares
    · next hvacuous =>
      cases operator with
      | equals =>
        refine (same_tests hv hstands value).congr ?_
        simp [AttributeTest.Matches, AttributeOperator.Compares]
      | includes =>
        simp only [isVacuous, Bool.or_eq_true, not_or, String.isEmpty_iff, List.any_eq_true,
          not_exists, not_and, Bool.not_eq_true] at hvacuous
        exact hasWord_tests hnode ha name hvacuous.1 hvacuous.2
      | dashMatch =>
        refine (dashMatch_tests hv hstands value).congr ?_
        rw [hstands.toText, getD_iff_exists (P := fun s => value.toList ++ ['-'] <+: s) (by simp)]
        simp [AttributeTest.Matches, AttributeOperator.Compares, and_or_left, exists_or]
      | startsWith =>
        have hne : value ≠ "" := by simpa [isVacuous] using hvacuous
        refine (startsWith_tests hv value).congr ?_
        rw [hstands.toText, getD_iff_exists (P := fun s => value.toList <+: s) (by simpa using hne)]
        simp [AttributeTest.Matches, AttributeOperator.Compares, hne]
      | endsWith =>
        have hne : value ≠ "" := by simpa [isVacuous] using hvacuous
        refine (endsWith_tests hv value).congr ?_
        rw [hstands.toText, getD_iff_exists (P := fun s => value.toList <:+ s) (by simpa using hne)]
        simp [AttributeTest.Matches, AttributeOperator.Compares, hne]
      | contains =>
        have hne : value ≠ "" := by simpa [isVacuous] using hvacuous
        refine (contains_tests hv value).congr ?_
        rw [hstands.toText, getD_iff_exists (P := fun s => value.toList <:+: s) (by simpa using hne)]
        simp [AttributeTest.Matches, AttributeOperator.Compares, hne]

end Evaluation

end SelectorPath
